import Slideshow.Files.Tree
import Slideshow.Proofs.Dictionary
import Slideshow.Proofs.Path

/-! Trees as maps from places to what stands there: a file with its content, or a directory. Putting
a leaf into a directory changes the map at one place. -/

namespace Slideshow

namespace Tree

/-- What stands at a place, without what is below it. -/
inductive Node
  | file (content : ByteArray)
  | directory

def node : Tree → Node
  | file content => .file content
  | directory _ => .directory

/-- What stands at the place that names lead to. -/
def node? (t : Tree) (names : List String) : Option Node := (t.get? names).map node

/-! ### Lookup -/

theorem get?_append (t : Tree) (names rest : List String) :
    t.get? (names ++ rest) = (t.get? names).bind (·.get? rest) := by
  induction names generalizing t with
  | nil => rfl
  | cons name names ih =>
    rw [List.cons_append, get?, get?]
    cases t.child? name with
    | none => rfl
    | some below => exact ih below

theorem node?_nil (t : Tree) : t.node? [] = some t.node := rfl

theorem node?_cons (t : Tree) (name : String) (names : List String) :
    t.node? (name :: names) = (t.child? name).bind (·.node? names) := by
  rw [node?, get?]
  cases t.child? name <;> rfl

theorem node?_eq_file {t : Tree} {names : List String} {content : ByteArray} :
    t.node? names = some (.file content) ↔ t.get? names = some (.file content) := by
  rw [node?, Option.map_eq_some_iff]
  constructor
  · rintro ⟨below, hGet, hNode⟩
    cases below with
    | file _ =>
      cases hNode
      exact hGet
    | directory _ => exact nomatch hNode
  · intro h
    exact ⟨_, h, rfl⟩

theorem node?_eq_directory {t : Tree} {names : List String} :
    t.node? names = some .directory ↔ ∃ es, t.get? names = some (.directory es) := by
  rw [node?, Option.map_eq_some_iff]
  constructor
  · rintro ⟨below, hGet, hNode⟩
    cases below with
    | file _ => exact nomatch hNode
    | directory es => exact ⟨es, hGet⟩
  · rintro ⟨es, h⟩
    exact ⟨_, h, rfl⟩

theorem node?_eq_none {t : Tree} {names : List String} :
    t.node? names = none ↔ t.get? names = none := Option.map_eq_none_iff

theorem node?_append {t below : Tree} {names : List String} (h : t.get? names = some below)
    (rest : List String) : t.node? (names ++ rest) = below.node? rest := by
  rw [node?, get?_append, h]
  rfl

/-- Whatever stands at a place stands in directories. -/
theorem directory_of_node?_append {t : Tree} {names rest : List String} {n : Node}
    (h : t.node? (names ++ rest) = some n) (hRest : rest ≠ []) :
    t.node? names = some .directory := by
  rw [node?, get?_append, Option.map_eq_some_iff] at h
  obtain ⟨below, hGet, -⟩ := h
  obtain ⟨above, hAbove, hBelow⟩ := Option.bind_eq_some_iff.1 hGet
  cases above with
  | file content =>
    cases rest with
    | nil => exact absurd rfl hRest
    | cons name rest => exact nomatch hBelow
  | directory es => exact node?_eq_directory.2 ⟨es, hAbove⟩

theorem directory_dropLast {t : Tree} {names : List String} (h : t.node? names = some .directory) :
    t.node? names.dropLast = some .directory := by
  rcases List.eq_nil_or_concat names with rfl | ⟨parent, name, rfl⟩
  · exact h
  · rw [List.concat_eq_append] at h ⊢
    rw [List.dropLast_concat]
    exact directory_of_node?_append h (List.cons_ne_nil _ _)

/-- What stands under a name and others after it stands below an entry of a directory. -/
theorem exists_entry {t : Tree} {name : String} {names : List String} {n : Node}
    (h : t.node? (name :: names) = some n) :
    ∃ es below, t = directory es ∧ es.lookup name = some below ∧ below.node? names = some n := by
  rw [node?_cons, Option.bind_eq_some_iff] at h
  obtain ⟨below, hChild, hBelow⟩ := h
  cases t with
  | file _ => exact nomatch hChild
  | directory es => exact ⟨es, below, rfl, hChild, hBelow⟩

/-! ### Putting -/

/-- A tree with nothing below it. -/
def isLeaf : Tree → Bool
  | file _ => true
  | directory es => es.isEmpty

theorem child?_of_isLeaf {t : Tree} (h : t.isLeaf = true) (name : String) : t.child? name = none := by
  cases t with
  | file _ => rfl
  | directory es =>
    rw [isLeaf, List.isEmpty_iff] at h
    rw [child?, h]
    rfl

theorem node?_below {t : Tree} {names : List String} (h : t.node? names ≠ some .directory)
    (name : String) (rest : List String) : t.node? (names ++ name :: rest) = none := by
  rw [Option.eq_none_iff_forall_ne_some]
  intro n hn
  exact h (directory_of_node?_append hn (List.cons_ne_nil _ _))

theorem put_singleton (es : List (String × Tree)) (name : String) (new : Tree) :
    (directory es).put [name] new = directory (Dictionary.insertEntry name new es) := by
  cases hLookup : es.lookup name <;> simp [put, hLookup]

theorem put_below {es : List (String × Tree)} {name : String} {below : Tree}
    (h : es.lookup name = some below) (names : List String) (new : Tree) :
    (directory es).put (name :: names) new =
      directory (Dictionary.insertEntry name (below.put names new) es) := by
  simp [put, h]

/-- A leaf that is put into a directory, where no directory stands, changes that one place. -/
theorem node?_put {t new : Tree} {parent : List String} {name : String}
    (hParent : t.node? parent = some .directory)
    (hOld : t.node? (parent ++ [name]) ≠ some .directory) (hNew : new.isLeaf = true)
    (other : List String) :
    (t.put (parent ++ [name]) new).node? other =
      if other = parent ++ [name] then some new.node else t.node? other := by
  induction parent generalizing t other with
  | nil =>
    obtain ⟨es, hEs⟩ := node?_eq_directory.1 hParent
    cases Option.some.inj hEs
    rw [List.nil_append, put_singleton]
    cases other with
    | nil => rfl
    | cons x rest =>
      rw [node?_cons, child?, Dictionary.lookup_insertEntry]
      by_cases hx : x = name
      · subst hx
        rw [if_pos rfl]
        -- Nothing stood below the old entry, and nothing stands below a leaf.
        cases rest with
        | nil => simp [node?_nil]
        | cons y rest =>
          have hBelow := node?_below hOld y rest
          rw [List.nil_append, List.singleton_append] at hBelow
          rw [Option.bind_some, node?_cons, child?_of_isLeaf hNew, if_neg (by simp), hBelow]
          rfl
      · rw [if_neg hx, if_neg (by simp [hx]), node?_cons, child?]
  | cons p parent ih =>
    obtain ⟨es, below, rfl, hBelow, hInner⟩ := exists_entry hParent
    rw [List.cons_append, node?_cons, child?, hBelow, Option.bind_some] at hOld
    rw [List.cons_append, put_below hBelow]
    cases other with
    | nil => rfl
    | cons x rest =>
      rw [node?_cons, child?, Dictionary.lookup_insertEntry, node?_cons, child?]
      by_cases hx : x = p
      · subst hx
        rw [if_pos rfl, hBelow, Option.bind_some, Option.bind_some, ih hInner hOld]
        simp
      · rw [if_neg hx, if_neg (by simp [hx])]

/-! ### Names -/

/-- Whether every directory has its entries in order, no two of one name, under names that can
stand in a path. -/
def WellFormed (t : Tree) : Prop :=
  ∀ names es, t.get? names = some (directory es) →
    es.Pairwise (fun a b => a.1 < b.1) ∧ ∀ e ∈ es, Path.IsName e.1

theorem WellFormed.below {t below : Tree} {names : List String} (ht : t.WellFormed)
    (hBelow : t.get? names = some below) : below.WellFormed := by
  intro rest es hEs
  refine ht (names ++ rest) es ?_
  rw [get?_append, hBelow]
  exact hEs

theorem WellFormed.child?_of_mem {es : List (String × Tree)} (h : (directory es).WellFormed)
    {name : String} {below : Tree} (hMem : (name, below) ∈ es) :
    (directory es).child? name = some below := Dictionary.lookup_of_mem (h [] es rfl).1 hMem

theorem wellFormed_directory {es : List (String × Tree)} : (directory es).WellFormed ↔
    es.Pairwise (fun a b => a.1 < b.1) ∧ ∀ e ∈ es, Path.IsName e.1 ∧ e.2.WellFormed := by
  constructor
  · intro h
    obtain ⟨hSorted, hNames⟩ := h [] es rfl
    refine ⟨hSorted, fun e he => ⟨hNames e he, ?_⟩⟩
    have hGet : (directory es).get? [e.1] = some e.2 := by
      rw [get?, h.child?_of_mem he]
      rfl
    exact h.below hGet
  · rintro ⟨hSorted, hBelow⟩ names es' h
    cases names with
    | nil =>
      cases Option.some.inj h
      exact ⟨hSorted, fun e he => (hBelow e he).1⟩
    | cons name names =>
      obtain ⟨below, hChild, h⟩ := Option.bind_eq_some_iff.1 h
      exact (hBelow (name, below) (Dictionary.mem_of_lookup hChild)).2 names es' h

/-- The names that lead to anything can stand in a path. -/
theorem WellFormed.isName_of_get? {t below : Tree} {names : List String} (ht : t.WellFormed)
    (h : t.get? names = some below) : ∀ name ∈ names, Path.IsName name := by
  induction names generalizing t with
  | nil => exact fun name hName => absurd hName List.not_mem_nil
  | cons name names ih =>
    obtain ⟨child, hChild, hBelow⟩ := Option.bind_eq_some_iff.1 h
    cases t with
    | file content => exact nomatch hChild
    | directory es =>
      obtain ⟨hName, hWell⟩ := (wellFormed_directory.1 ht).2 _ (Dictionary.mem_of_lookup hChild)
      exact List.forall_mem_cons.2 ⟨hName, ih hWell hBelow⟩

theorem wellFormed_of_isLeaf {t : Tree} (h : t.isLeaf = true) : t.WellFormed := by
  cases t with
  | file content =>
    intro names es hGet
    cases names with
    | nil => exact nomatch hGet
    | cons name names => exact nomatch hGet
  | directory es =>
    rw [isLeaf, List.isEmpty_iff] at h
    subst h
    exact wellFormed_directory.2 ⟨.nil, fun e he => absurd he List.not_mem_nil⟩

theorem WellFormed.put {t new : Tree} {parent : List String} {name : String} (ht : t.WellFormed)
    (hParent : t.node? parent = some .directory) (hName : Path.IsName name)
    (hNew : new.isLeaf = true) : (t.put (parent ++ [name]) new).WellFormed := by
  induction parent generalizing t with
  | nil =>
    obtain ⟨es, hEs⟩ := node?_eq_directory.1 hParent
    cases Option.some.inj hEs
    obtain ⟨hSorted, hBelow⟩ := wellFormed_directory.1 ht
    rw [List.nil_append, put_singleton, wellFormed_directory]
    refine ⟨Dictionary.insertEntry_sorted _ _ hSorted, fun e he => ?_⟩
    obtain rfl | he := Dictionary.mem_insertEntry he
    · exact ⟨hName, wellFormed_of_isLeaf hNew⟩
    · exact hBelow e he
  | cons p parent ih =>
    obtain ⟨es, below, rfl, hLookup, hInner⟩ := exists_entry hParent
    obtain ⟨hSorted, hBelow⟩ := wellFormed_directory.1 ht
    rw [List.cons_append, put_below hLookup, wellFormed_directory]
    refine ⟨Dictionary.insertEntry_sorted _ _ hSorted, fun e he => ?_⟩
    obtain ⟨hp, hWell⟩ := hBelow _ (Dictionary.mem_of_lookup hLookup)
    obtain rfl | he := Dictionary.mem_insertEntry he
    · exact ⟨hp, ih hWell hInner⟩
    · exact hBelow e he

/-- Well-formed trees with the same at every place are the same. -/
theorem WellFormed.ext {t u : Tree} (ht : t.WellFormed) (hu : u.WellFormed)
    (h : ∀ names, t.node? names = u.node? names) : t = u := by
  have hRoot := h []
  rw [node?_nil, node?_nil, Option.some_inj] at hRoot
  match t, u, hRoot with
  | file content, file _, hRoot =>
    cases hRoot
    rfl
  | directory es, directory es', _ =>
    obtain ⟨hSorted, hBelow⟩ := wellFormed_directory.1 ht
    obtain ⟨hSorted', hBelow'⟩ := wellFormed_directory.1 hu
    rw [Dictionary.eq_of_lookup hSorted hSorted' fun name => ?_]
    have hChild (names : List String) : (es.lookup name).bind (·.node? names) =
        (es'.lookup name).bind (·.node? names) := by
      have hNames := h (name :: names)
      rwa [node?_cons, node?_cons, child?, child?] at hNames
    cases hFind : es.lookup name with
    | none =>
      cases hFind' : es'.lookup name with
      | none => rfl
      | some below' =>
        rw [hFind, hFind'] at hChild
        exact nomatch hChild []
    | some below =>
      cases hFind' : es'.lookup name with
      | none =>
        rw [hFind, hFind'] at hChild
        exact nomatch hChild []
      | some below' =>
        rw [hFind, hFind'] at hChild
        have hMem := Dictionary.mem_of_lookup hFind
        have hSame : below = below' :=
          WellFormed.ext (hBelow _ hMem).2 (hBelow' _ (Dictionary.mem_of_lookup hFind')).2 hChild
        rw [hSame]
termination_by sizeOf t
decreasing_by
  have hLess := List.sizeOf_lt_of_mem hMem
  simp only [Prod.mk.sizeOf_spec] at hLess
  simp only [directory.sizeOf_spec]
  omega

end Tree

end Slideshow
