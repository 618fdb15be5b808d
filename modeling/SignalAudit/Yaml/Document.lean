import SignalAudit.Yaml.Node
import SignalAudit.Yaml.TokenStream

/-!
The first document of a YAML stream, from its tokens. What follows the first document is not looked at further than
the tokens that tell where it ends.
-/

namespace SignalAudit.Yaml

/-- A document while it is built. -/
structure Builder where
  stream : TokenStream
  nodes : Array Node := #[]
  anchors : List (Text × NodeId) := []
  /-- What tag handles stand for. -/
  handles : List (Text × Text) := []

/-- A step of building; there is no result for a malformed stream. -/
abbrev Build := StateT Builder Option

namespace Build

def malformed {α : Type} : Build α := fun _ => none

/-- The next token. -/
def peek : Build Token := fun b =>
  b.stream.peek?.map fun (t, stream) => (t, { b with stream })

/-- Takes the next token. -/
def drop : Build Unit := modify fun b => { b with stream := b.stream.drop }

/-- Takes the next token and looks at the one after it. -/
def advance : Build Token := do
  drop
  peek

/-- Adds a node. -/
def add (n : Node) : Build NodeId :=
  modifyGet fun b => (b.nodes.size, { b with nodes := b.nodes.push n })

def replace (id : NodeId) (n : Node) : Build Unit :=
  modify fun b => { b with nodes := b.nodes.setIfInBounds id n }

/-- What a node has in front of its content. -/
structure Properties where
  anchor : Option Text := none
  tag : Text := []
  line : Nat

/-- Lets an anchor name a node. -/
def name (p : Properties) (id : NodeId) : Build Unit :=
  match p.anchor with
  | none => pure ()
  | some anchor => modify fun b => { b with anchors := (anchor, id) :: b.anchors }

/-- The tag that was given, in short form, or else another. A lone exclamation mark gives none. -/
def tagOr (p : Properties) (other : Text) : Text :=
  if p.tag.isEmpty || p.tag == text "!" then other else Tag.shorten p.tag

/-- The tag of a scalar that was given none. -/
def scalarTag (value : Text) (plain : Bool) : Text :=
  if !plain then Tag.str
  else if value == text "<<" then Tag.merge
  else (Resolved.ofPlain true value).tag

def scalar (p : Properties) (value : Text) (plain : Bool) : Build NodeId := do
  let id ← add ⟨.scalar value, tagOr p (scalarTag value plain), p.line⟩
  name p id
  pure id

/-- The scalar that stands where nothing was written. -/
def emptyScalar (mark : Mark) : Build NodeId := scalar { line := mark.line + 1 } [] true

/-- An alias of a node that was named before. -/
def reference (anchor : Text) (mark : Mark) : Build NodeId := do
  match (← get).anchors.lookup anchor with
  | none => malformed
  | some target => add ⟨.reference anchor target, [], mark.line + 1⟩

/-- Adds a node that can already be named while its parts are built. -/
def collection (p : Properties) (tag : Text) (parts : Build Content) : Build NodeId := do
  let id ← add ⟨.sequence [], tag, p.line⟩
  name p id
  let content ← parts
  replace id ⟨content, tagOr p tag, p.line⟩
  pure id

/-- A tag with its handle replaced by what it stands for. -/
def expandTag (handle suffix : Text) : Build Text := do
  if handle.isEmpty then pure suffix
  else
    match (← get).handles.lookup handle with
    | some expansion => if (expansion ++ suffix).isEmpty then malformed else pure (expansion ++ suffix)
    | none => malformed

/-- An anchor and a tag in either order, and the token after them. -/
def properties : Build (Properties × Token) := do
  let t ← peek
  let line := t.start.line + 1
  match t.kind with
  | .anchor anchor =>
    let next ← advance
    match next.kind with
    | .tag handle suffix =>
      let after ← advance
      let tag ← expandTag handle suffix
      pure (⟨some anchor, tag, line⟩, after)
    | _ => pure (⟨some anchor, [], line⟩, next)
  | .tag handle suffix =>
    let next ← advance
    match next.kind with
    | .anchor anchor =>
      let after ← advance
      let tag ← expandTag handle suffix
      pure (⟨some anchor, tag, line⟩, after)
    | _ =>
      let tag ← expandTag handle suffix
      pure (⟨none, tag, line⟩, next)
  | _ => pure (⟨none, [], line⟩, t)

/-- A token that leaves the place before it in a block mapping empty. -/
def endsBlockItem : TokenKind → Bool
  | .key | .value | .blockEnd => true
  | _ => false

/-- A node of which only properties were written. -/
def emptyNode (p : Properties) : Build NodeId :=
  if p.anchor.isSome || !p.tag.isEmpty then scalar p [] true else malformed

mutual

/-- A node. Block collections are only for block context, and one without indentation of its own only for the
values of a mapping. The first argument bounds the steps, here and below. -/
def node : Nat → (block indentless : Bool) → Build NodeId
  | 0, _, _ => malformed
  | n + 1, block, indentless => do
    let first ← peek
    if let .reference anchor := first.kind then
      drop
      return ← reference anchor first.start
    let (p, t) ← properties
    match t.kind with
    | .scalar value plain =>
      drop
      scalar p value plain
    | .flowSequenceStart => collection p Tag.seq (do drop; flowItems n true [])
    | .flowMappingStart => collection p Tag.map (do drop; flowPairs n true [])
    | .blockEntry =>
      if indentless then collection p Tag.seq (indentlessItems n [])
      else emptyNode p
    | .blockSequenceStart => if block then collection p Tag.seq (do drop; blockItems n []) else emptyNode p
    | .blockMappingStart => if block then collection p Tag.map (do drop; blockPairs n []) else emptyNode p
    | _ => emptyNode p

/-- The items of a block sequence. -/
def blockItems : Nat → List NodeId → Build Content
  | 0, _ => malformed
  | n + 1, items => do
    let t ← peek
    match t.kind with
    | .blockEntry =>
      let next ← advance
      let item ← match next.kind with
        | .blockEntry | .blockEnd => emptyScalar t.stop
        | _ => node n true false
      blockItems n (item :: items)
    | .blockEnd =>
      drop
      pure (.sequence items.reverse)
    | _ => malformed

/-- The items of a sequence that has no indentation of its own. -/
def indentlessItems : Nat → List NodeId → Build Content
  | 0, _ => malformed
  | n + 1, items => do
    let t ← peek
    match t.kind with
    | .blockEntry =>
      let next ← advance
      let item ←
        if next.kind == .blockEntry || endsBlockItem next.kind then emptyScalar t.stop else node n true false
      indentlessItems n (item :: items)
    | _ => pure (.sequence items.reverse)

/-- The pairs of a block mapping. -/
def blockPairs : Nat → List (NodeId × NodeId) → Build Content
  | 0, _ => malformed
  | n + 1, pairs => do
    let t ← peek
    match t.kind with
    | .key =>
      let next ← advance
      let key ← if endsBlockItem next.kind then emptyScalar t.stop else node n true true
      let value ← blockValue n
      blockPairs n ((key, value) :: pairs)
    | .blockEnd =>
      drop
      pure (.mapping pairs.reverse)
    | _ => malformed

/-- The value of a pair of a block mapping. -/
def blockValue : Nat → Build NodeId
  | 0 => malformed
  | n + 1 => do
    let t ← peek
    if t.kind == .value then
      let next ← advance
      if endsBlockItem next.kind then emptyScalar t.stop else node n true true
    else emptyScalar t.start

/-- The items of a flow sequence. An item may be a single pair, which is then a mapping. -/
def flowItems : Nat → Bool → List NodeId → Build Content
  | 0, _, _ => malformed
  | n + 1, first, items => do
    let t ← peek
    if t.kind == .flowSequenceEnd then
      drop
      pure (.sequence items.reverse)
    else
      let t ← if first then pure t else if t.kind == .flowEntry then advance else malformed
      if t.kind == .key then
        drop
        let item ← collection { line := t.start.line + 1 } Tag.map (flowSinglePair n)
        flowItems n false (item :: items)
      else if t.kind == .flowSequenceEnd then
        drop
        pure (.sequence items.reverse)
      else
        let item ← node n false false
        flowItems n false (item :: items)

/-- The pair of a mapping that is an item of a flow sequence. A key that is missing takes the token in its place
with it. -/
def flowSinglePair : Nat → Build Content
  | 0 => malformed
  | n + 1 => do
    let t ← peek
    let key ← match t.kind with
      | .value | .flowEntry | .flowSequenceEnd => do
        drop
        emptyScalar t.stop
      | _ => node n false false
    let t ← peek
    if t.kind == .value then
      let next ← advance
      if next.kind == .flowEntry || next.kind == .flowSequenceEnd then
        let value ← emptyScalar t.start
        pure (.mapping [(key, value)])
      else
        let value ← node n false false
        pure (.mapping [(key, value)])
    else
      let value ← emptyScalar t.start
      pure (.mapping [(key, value)])

/-- The pairs of a flow mapping. -/
def flowPairs : Nat → Bool → List (NodeId × NodeId) → Build Content
  | 0, _, _ => malformed
  | n + 1, first, pairs => do
    let t ← peek
    if t.kind == .flowMappingEnd then
      drop
      pure (.mapping pairs.reverse)
    else
      let t ← if first then pure t else if t.kind == .flowEntry then advance else malformed
      if t.kind == .key then
        let next ← advance
        let key ← match next.kind with
          | .value | .flowEntry | .flowMappingEnd => emptyScalar next.start
          | _ => node n false false
        let value ← flowValue n
        flowPairs n false ((key, value) :: pairs)
      else if t.kind == .flowMappingEnd then
        drop
        pure (.mapping pairs.reverse)
      else
        let key ← node n false false
        let next ← peek
        let value ← emptyScalar next.start
        flowPairs n false ((key, value) :: pairs)

/-- The value of a pair of a flow mapping. -/
def flowValue : Nat → Build NodeId
  | 0 => malformed
  | n + 1 => do
    let t ← peek
    if t.kind == .value then
      let next ← advance
      if next.kind == .flowEntry || next.kind == .flowMappingEnd then emptyScalar next.start else node n false false
    else emptyScalar t.start

end

/-- Directives before a document; `versioned` tells whether a version was given. -/
def directives : Nat → Bool → Build Unit
  | 0, _ => malformed
  | n + 1, versioned => do
    let t ← peek
    match t.kind with
    | .versionDirective major minor =>
      if versioned || major != 1 || minor != 1 then malformed
      else
        drop
        directives n true
    | .tagDirective handle expansion =>
      if ((← get).handles.lookup handle).isSome then malformed
      else
        modify fun b => { b with handles := (handle, expansion) :: b.handles }
        drop
        directives n versioned
    | _ => pure ()

/-- The handles that every document knows, unless it gives them another meaning. -/
def standardHandles : List (Text × Text) := [(text "!", text "!"), (text "!!", Tag.standardStart)]

/-- The content of a document that was begun by a mark. -/
def markedContent (steps : Nat) : Build NodeId := do
  let t ← peek
  match t.kind with
  | .versionDirective _ _ | .tagDirective _ _ | .documentStart | .documentEnd | .streamEnd => emptyScalar t.start
  | _ => node steps true false

/-- The root of the first document, if there is a document. -/
def document (steps : Nat) : Build (Option NodeId) := do
  let _ ← peek
  let t ← advance
  match t.kind with
  | .streamEnd => pure none
  | .versionDirective _ _ | .tagDirective _ _ | .documentStart =>
    directives steps false
    modify fun b => { b with handles := b.handles ++ standardHandles }
    let t ← peek
    if t.kind == .documentStart then
      drop
      let root ← markedContent steps
      let _ ← peek
      pure (some root)
    else malformed
  | _ =>
    modify fun b => { b with handles := standardHandles }
    let root ← node steps true false
    let _ ← peek
    pure (some root)

end Build

/-- The first document of a stream: `none` for a malformed stream, `some none` where there is no document. -/
def Document.ofText? (bytes : Text) : Option (Option Document) := do
  let (root, b) ← (Build.document (4 * bytes.length + 16)).run { stream := .ofText bytes }
  some (root.map fun id => ⟨b.nodes, id⟩)

end SignalAudit.Yaml
