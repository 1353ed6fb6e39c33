import Slideshow.Yaml.Node.Basic
import Slideshow.Yaml.Token.Basic

/-! Nodes from tokens. The functions give a node and the tokens after it; the natural number bounds
the depth of their calls. -/

namespace Slideshow.Yaml

namespace Grammar

/-- A node in which aliases are names. -/
abbrev Named := Node String

/-- The tag that is meant, under the handles of the document. -/
def resolveTag (handles : TagHandles) (t : TagText) : Except Error (Option Tag) :=
  match t.resolve? handles with
  | some tag => .ok (some tag)
  | none => .error .undefinedTagHandle

/-- The anchor and the tag at the start of a node, in either order. -/
def properties (handles : TagHandles) : List Token → Except Error (Properties String × List Token)
  | .anchor a :: .tag t :: ts => do return (⟨some a, ← resolveTag handles t⟩, ts)
  | .tag t :: .anchor a :: ts => do return (⟨some a, ← resolveTag handles t⟩, ts)
  | .anchor a :: ts => .ok (⟨some a, none⟩, ts)
  | .tag t :: ts => do return (⟨none, ← resolveTag handles t⟩, ts)
  | ts => .ok ({}, ts)

/-- Whether a key or a value of a mapping in a block is empty. -/
def endsBlockNode : List Token → Bool
  | .blockEnd :: _ | .key :: _ | .value :: _ => true
  | _ => false

/-- Whether the item of a block list is empty; `indented` lists end at a key only after their
end. -/
def endsBlockItem (indented : Bool) : List Token → Bool
  | .blockEntry :: _ | .blockEnd :: _ => true
  | .key :: _ | .value :: _ => !indented
  | _ => false

/-- Whether the next token ends an item inside brackets. -/
def endsFlowNode (closing : Token) : List Token → Bool
  | t :: _ => t == .flowEntry || t == closing
  | [] => false

mutual

/-- A node. In a block, lists and mappings may be written by indentation; `indentless` lists may
stand at the indentation of the mapping around them. -/
def node (handles : TagHandles) (block indentless : Bool) :
    Nat → List Token → Except Error (Named × List Token)
  | 0, _ => .error .unfinished
  | depth + 1, ts =>
    match ts with
    | .reference a :: ts => .ok (.reference a, ts)
    | _ => do
      let (p, ts) ← properties handles ts
      match ts with
      -- No tag is dropped, not even a lone exclamation mark: `! 1` is a tagged number.
      | .scalar text plain :: ts => return (.scalar p text plain, ts)
      | .flowListStart :: ts =>
        let (items, ts) ← flowItems handles true depth ts
        return (.list p items, ts)
      | .flowMappingStart :: ts =>
        let (entries, ts) ← flowEntries handles true depth ts
        return (.mapping p entries, ts)
      | _ =>
        match block, indentless, ts with
        | _, true, .blockEntry :: _ =>
          let (items, ts) ← blockItems handles false depth ts
          return (.list p items, ts)
        | true, _, .blockListStart :: ts =>
          let (items, ts) ← blockItems handles true depth ts
          return (.list p items, ts)
        | true, _, .blockMappingStart :: ts =>
          let (entries, ts) ← blockEntries handles depth ts
          return (.mapping p entries, ts)
        | _, _, _ =>
          if p == {} then .error .unexpectedToken else return (.scalar p "" true, ts)

/-- The items of a list in a block, up to its end; one that is not indented has none. -/
def blockItems (handles : TagHandles) (indented : Bool) :
    Nat → List Token → Except Error (List Named × List Token)
  | 0, _ => .error .unfinished
  | depth + 1, ts =>
    match indented, ts with
    | _, .blockEntry :: ts => do
      let (item, ts) ←
        if endsBlockItem indented ts then .ok (.empty, ts) else node handles true false depth ts
      let (items, ts) ← blockItems handles indented depth ts
      return (item :: items, ts)
    | true, .blockEnd :: ts => .ok ([], ts)
    | true, _ => .error .unexpectedToken
    | false, ts => .ok ([], ts)

/-- The entries of a mapping in a block, up to its end. -/
def blockEntries (handles : TagHandles) :
    Nat → List Token → Except Error (List (Named × Named) × List Token)
  | 0, _ => .error .unfinished
  | depth + 1, ts =>
    match ts with
    | .key :: ts => do
      let (key, ts) ←
        if endsBlockNode ts then .ok (.empty, ts) else node handles true true depth ts
      let (value, ts) ← match ts with
        | .value :: ts =>
          if endsBlockNode ts then .ok (.empty, ts) else node handles true true depth ts
        | ts => .ok (.empty, ts)
      let (entries, ts) ← blockEntries handles depth ts
      return ((key, value) :: entries, ts)
    | .blockEnd :: ts => .ok ([], ts)
    | _ => .error .unexpectedToken

/-- The items of a list in brackets, up to its end. An item can be a single pair; where its key is
missing, the token after the question mark is passed over. -/
def flowItems (handles : TagHandles) (first : Bool) :
    Nat → List Token → Except Error (List Named × List Token)
  | 0, _ => .error .unfinished
  | depth + 1, ts =>
    match first, ts with
    | _, .flowListEnd :: ts => .ok ([], ts)
    | true, ts | false, .flowEntry :: ts =>
      match ts with
      | .flowListEnd :: ts => .ok ([], ts)
      | .key :: ts => do
        let (key, ts) ←
          if endsFlowNode .flowListEnd ts || ts.head? == some .value then
            .ok (.empty, ts.drop 1)
          else node handles false false depth ts
        let (value, ts) ← match ts with
          | .value :: ts =>
            if endsFlowNode .flowListEnd ts then .ok (.empty, ts)
            else node handles false false depth ts
          | ts => .ok (.empty, ts)
        let (items, ts) ← flowItems handles false depth ts
        return (.mapping {} [(key, value)] :: items, ts)
      | ts => do
        let (item, ts) ← node handles false false depth ts
        let (items, ts) ← flowItems handles false depth ts
        return (item :: items, ts)
    | false, _ => .error .unexpectedToken

/-- The entries of a mapping in braces, up to its end. A key may stand without a value. -/
def flowEntries (handles : TagHandles) (first : Bool) :
    Nat → List Token → Except Error (List (Named × Named) × List Token)
  | 0, _ => .error .unfinished
  | depth + 1, ts =>
    match first, ts with
    | _, .flowMappingEnd :: ts => .ok ([], ts)
    | true, ts | false, .flowEntry :: ts =>
      match ts with
      | .flowMappingEnd :: ts => .ok ([], ts)
      | .key :: ts => do
        let (key, ts) ←
          if endsFlowNode .flowMappingEnd ts || ts.head? == some .value then .ok (.empty, ts)
          else node handles false false depth ts
        let (value, ts) ← match ts with
          | .value :: ts =>
            if endsFlowNode .flowMappingEnd ts then .ok (.empty, ts)
            else node handles false false depth ts
          | ts => .ok (.empty, ts)
        let (entries, ts) ← flowEntries handles false depth ts
        return ((key, value) :: entries, ts)
      | ts => do
        let (key, ts) ← node handles false false depth ts
        let (entries, ts) ← flowEntries handles false depth ts
        return ((key, .empty) :: entries, ts)
    | false, _ => .error .unexpectedToken

end

/-- The directives in front of a document: at most one version, which must be 1.1 or 1.2, and each
handle at most once. -/
def directives (version : Bool) (handles : TagHandles) :
    List Token → Except Error (TagHandles × List Token)
  | .version major minor :: ts =>
    if version || major != 1 || !(minor == 1 || minor == 2) then .error .badDirective
    else directives true handles ts
  | .handle handle start :: ts =>
    if (handles.lookup handle).isSome then .error .badDirective
    else directives version ((handle, start) :: handles) ts
  | ts => .ok (handles ++ defaultHandles, ts)

/-- Whether the content of a document that has been started is empty. -/
def endsDocument : List Token → Bool
  | .version _ _ :: _ | .handle _ _ :: _ | .documentStart :: _ | .documentEnd :: _ | [] => true
  | _ => false

/-- The document after its directives: without them it may start at once. -/
def content (depth : Nat) (ts : List Token) : Except Error (Named × List Token) :=
  match ts with
  | .version _ _ :: _ | .handle _ _ :: _ | .documentStart :: _ => do
    let (handles, ts) ← directives false [] ts
    match ts with
    | .documentStart :: ts =>
      if endsDocument ts then .ok (.empty, ts) else node handles true false depth ts
    | _ => .error .unexpectedToken
  | _ => node defaultHandles true false depth ts

/-- The only document that tokens write; without tokens it is empty. -/
def document : List Token → Except Error Named
  | [] => .ok .empty
  | ts => do
    let (root, rest) ← content (4 * ts.length + 4) ts
    if (rest.dropWhile (· == .documentEnd)).isEmpty then return root else .error .secondDocument

end Grammar

end Slideshow.Yaml
