import Slideshow.Text

/-! Pages with numbered insert points, and the fragments that wait to be put in at each of them. -/

namespace Slideshow

/-- The comment that marks the insert point of a position. -/
def insertPoint (position : Int) : String := "<!-- Insert Point " ++ toString position ++ " -->"

/-- The fragments queued for positions, which are in the order of their first use, and the position
for fragments without one. -/
structure Page where
  markup : String
  queues : List (Int × List String) := []
  defaultPosition : Int := 0
  deriving DecidableEq, Repr

namespace Page

/-- The queues with a fragment added at the end of the one for `position`. -/
def enqueue (content : String) (position : Int) :
    List (Int × List String) → List (Int × List String)
  | [] => [(position, [content])]
  | (p, queued) :: rest =>
    if p = position then (p, queued ++ [content]) :: rest
    else (p, queued) :: enqueue content position rest

/-- Queues a fragment at a position. -/
def insertAt (page : Page) (content : String) (position : Int) : Page :=
  { page with queues := enqueue content position page.queues }

/-- Queues a fragment at the default position. -/
def insert (page : Page) (content : String) : Page :=
  page.insertAt content page.defaultPosition

def setDefault (page : Page) (position : Int) : Page := { page with defaultPosition := position }

/-- The fragments queued at a position. -/
def pending (page : Page) (position : Int) : List String :=
  (page.queues.lookup position).getD []

/-- Puts the fragments of one position in place of its first insert point, and counts it. -/
def fill (done : List Char × Nat) (queue : Int × List String) : List Char × Nat :=
  let joined := "\n".intercalate queue.2
  match Text.replaceFirst? (insertPoint queue.1).toList joined.toList done.1 with
  | some markup => (markup, done.2 + 1)
  | none => done

/-- Puts all fragments in, position by position, and says how many insert points were replaced. The
queues are kept. -/
def flush (page : Page) : Page × Nat :=
  let filled := page.queues.foldl fill (page.markup.toList, 0)
  ({ page with markup := String.ofList filled.1 }, filled.2)

end Page

end Slideshow
