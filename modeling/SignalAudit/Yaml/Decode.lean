import SignalAudit.Text.Base64
import SignalAudit.Text.Quoted
import SignalAudit.Yaml.Node

/-!
Decoding a document into texts, truth values, lists of texts and records of these. A value that does not fit is noted
and decoding goes on, so that all such problems come together. A document that contradicts itself has no result at
all, nor has one that grows too much by its aliases.
-/

namespace SignalAudit.Yaml

/-- What decoding has done so far. -/
structure Progress where
  /-- How many nodes were decoded, again each time an alias leads to one. -/
  steps : Nat := 0
  /-- How many of them an alias led to. -/
  aliased : Nat := 0
  /-- The aliases that are being followed. -/
  following : List NodeId := []
  problems : Array Text := #[]

namespace Progress

/-- Up to 400000 steps nearly all may come from aliases; from there on the part they may have falls evenly, to a tenth
at 4000000 steps. Small documents are free. -/
def isExcessive (p : Progress) : Bool :=
  decide (100 < p.aliased) && decide (1000 < p.steps) &&
    if p.steps ≤ 400000 then decide (99 * p.steps < 100 * p.aliased)
    else if 4000000 ≤ p.steps then decide (p.steps < 10 * p.aliased)
    else decide ((99 * 3600000 - 89 * (p.steps - 400000)) * p.steps < 100 * 3600000 * p.aliased)

end Progress

/-- A step of decoding; there is no result for a document that cannot be decoded. -/
abbrev Decode := StateT Progress Option

/-- What is asked of a node. -/
structure Shape where
  name : Text
  /-- The value may be left out. -/
  optional : Bool := false
  deriving Repr, DecidableEq

namespace Shape

def text : Shape where
  name := SignalAudit.text "string"

def flag : Shape where
  name := SignalAudit.text "bool"

def texts : Shape where
  name := SignalAudit.text "[]string"

/-- The same, but the value may be left out. -/
def orNull (s : Shape) : Shape := { s with optional := true }

end Shape

namespace Decode

def malformed {α : Type} : Decode α := fun _ => none

/-- Notes a problem on a line. -/
def problem (line : Nat) (t : Text) : Decode Unit :=
  modify fun p => { p with problems := p.problems.push (text "line " ++ Text.ofNat line ++ text ": " ++ t) }

/-- The beginning of a value, as it is shown in a problem. -/
def excerpt (value : Text) : Text :=
  text " `" ++ (if 10 < value.length then value.take 7 ++ text "..." else value) ++ text "`"

/-- Notes that a node is not what was asked for. -/
def unfit (n : Node) (s : Shape) : Decode Unit :=
  problem n.line <| text "cannot unmarshal " ++ n.tag ++
    (if n.tag == Tag.seq || n.tag == Tag.map then n.value else excerpt n.value) ++ text " into " ++
    (if s.optional && n.tag == Tag.null then text "*" else []) ++ s.name

/-- Counts a step. -/
def count : Decode Unit := do
  let p ← get
  let p := { p with
    steps := p.steps + 1
    aliased := if p.following.isEmpty then p.aliased else p.aliased + 1 }
  if p.isExcessive then malformed else set p

/-- Does something while an alias is followed. An alias cannot lead to itself. -/
def following {α : Type} (id : NodeId) (act : Decode α) : Decode α := do
  let p ← get
  if p.following.contains id then malformed
  else
    set { p with following := id :: p.following }
    let a ← act
    modify fun q => { q with following := p.following }
    pure a

/-- Decodes a node, or the one an alias leads to. The first argument bounds the steps, here and below. -/
def visit {α : Type} (d : Document) (use : Node → Decode α) : Nat → NodeId → Decode α
  | 0, _ => malformed
  | k + 1, id => do
    count
    match d.node? id with
    | none => malformed
    | some n =>
      match n.content with
      | .reference _ target => following id (visit d use k target)
      | _ => use n

/-- Notes the keys of a mapping that were there before, and tells whether there are any. -/
def notesRepeated (d : Document) : List NodeId → Decode Bool
  | [] => pure false
  | id :: rest => do
    let here ← match d.node? id with
      | none => pure false
      | some first =>
        let later := (rest.filterMap d.node?).filter first.isLike
        for n in later do
          problem n.line (text "mapping key " ++ Text.quote n.value ++ text " already defined at line " ++
            Text.ofNat first.line)
        pure !later.isEmpty
    let below ← notesRepeated d rest
    pure (here || below)

/-- Notes that a collection is not what was asked for. Of a mapping with repeated keys only these are noted. -/
def unfitCollection (d : Document) (n : Node) (s : Shape) : Decode Unit := do
  match n.content with
  | .mapping pairs => if ← notesRepeated d (pairs.map Prod.fst) then pure () else unfit n s
  | _ => unfit n s

/-- What a scalar is, and its text. -/
def scalar (n : Node) (value : Text) : Decode (Resolved × Text) :=
  match Resolved.ofTagged n.tag value with
  | none => malformed
  | some r =>
    if n.tag == Tag.binary then
      match Text.Base64.decode? value with
      | none => malformed
      | some bytes => pure (r, bytes)
    else pure (r, value)

/-- Any scalar but null is a text, as it is written. -/
def textValue (d : Document) (s : Shape) : Nat → NodeId → Decode (Option Text) :=
  visit d fun n =>
    match n.content with
    | .scalar value => do
      let (r, t) ← scalar n value
      pure (if r == .null then none else some t)
    | _ => do
      unfitCollection d n s
      pure none

/-- Words for a truth value that count even in quotes. -/
def flagWords : List (Text × Bool) := [
  (text "y", true), (text "Y", true), (text "yes", true), (text "Yes", true), (text "YES", true),
  (text "on", true), (text "On", true), (text "ON", true),
  (text "n", false), (text "N", false), (text "no", false), (text "No", false), (text "NO", false),
  (text "off", false), (text "Off", false), (text "OFF", false)]

def flagValue (d : Document) (s : Shape) : Nat → NodeId → Decode (Option Bool) :=
  visit d fun n =>
    match n.content with
    | .scalar value => do
      let (r, t) ← scalar n value
      let found := match r with
        | .boolean b => some b
        | .string => flagWords.lookup t
        | _ => none
      if found.isNone && r != .null then unfit n s
      pure found
    | _ => do
      unfitCollection d n s
      pure none

/-- A list of texts; its nulls are left out. -/
def textsValue (d : Document) (s : Shape) (bound : Nat) : NodeId → Decode (Option (List Text)) :=
  visit d (fun n =>
    match n.content with
    | .scalar value => do
      let (r, _) ← scalar n value
      if r != .null then unfit n s
      pure none
    | .sequence items => do
      if s.optional && n.tag == Tag.null then
        unfit n s
        pure none
      else
        let found ← items.mapM (textValue d Shape.text bound)
        pure (some (found.filterMap id))
    | _ => do
      unfitCollection d n s
      pure none) bound

/-- A kind of record: how the value of each field is decoded into it. -/
structure RecordType (ρ : Type) where
  shape : Shape
  field? : Text → Option (NodeId → ρ → Decode ρ)

/-- A record while a mapping is decoded into it. -/
structure Filling (ρ : Type) where
  record : ρ
  /-- In a mapping that is merged into others: the keys that were met already. They keep their values. -/
  met : Option (List Text)
  /-- The fields that this mapping has set. -/
  done : List Text := []
  /-- What is to be merged into this mapping. -/
  merged : Option NodeId := none

variable {ρ : Type}

/-- Decodes one pair of a mapping. Keys that name no field are passed over. -/
def fillPair (d : Document) (type : RecordType ρ) (bound : Nat) (f : Filling ρ) (pair : NodeId × NodeId) :
    Decode (Filling ρ) := do
  let line := ((d.node? pair.1).map Node.line).getD 0
  if (d.node? pair.1).any Node.isMerge then pure { f with merged := some pair.2 }
  else
    match ← textValue d Shape.text bound pair.1 with
    | none => pure f
    | some key =>
      if f.met.any (·.contains key) then pure f
      else
        let f := { f with met := f.met.map (key :: ·) }
        match type.field? key with
        | none => pure f
        | some decode =>
          if f.done.contains key then
            problem line (text "field " ++ key ++ text " already set in type " ++ type.shape.name)
            pure f
          else
            let record ← decode pair.2 f.record
            pure { f with record, done := key :: f.done }

/-- The keys of a mapping that are strings. A collection cannot be such a key. -/
def stringKeys (d : Document) (bound : Nat) (keys : List NodeId) : Decode (List Text) := do
  let found ← keys.mapM (visit d (fun n =>
    match n.content with
    | .scalar value => do
      let (r, t) ← scalar n value
      pure (if r == .string then some t else none)
    | .mapping pairs => do
      if ← notesRepeated d (pairs.map Prod.fst) then pure none else malformed
    | _ => malformed) bound)
  pure (found.filterMap id)

def isMapping (n : Node) : Bool :=
  match n.content with
  | .mapping _ => true
  | _ => false

/-- A mapping or an alias of one. -/
def leadsToMapping (d : Document) (id : NodeId) : Bool :=
  match d.node? id with
  | none => false
  | some n =>
    match n.content with
    | .reference _ target => (d.node? target).any isMapping
    | _ => isMapping n

/-- The mappings that a merge key names: one, or a list of them. -/
def mergedMappings (d : Document) (id : NodeId) : Decode (List NodeId) :=
  match (d.node? id).map Node.content with
  | some (.sequence items) => if items.all (leadsToMapping d) then pure items else malformed
  | _ => if leadsToMapping d id then pure [id] else malformed

/-- Decodes a node into a record. The keys that were met already, if they are to be kept, come with the result. -/
def fill (d : Document) (type : RecordType ρ) (bound : Nat) :
    Nat → ρ × Option (List Text) → NodeId → Decode (ρ × Option (List Text))
  | 0, _, _ => malformed
  | k + 1, (record, met), id =>
    visit d (fun n =>
      match n.content with
      | .scalar value => do
        let (r, _) ← scalar n value
        if r != .null then unfit n type.shape
        pure (record, met)
      | .mapping pairs => do
        if ← notesRepeated d (pairs.map Prod.fst) then pure (record, met)
        else
          let f ← pairs.foldlM (fillPair d type bound) { record, met }
          match f.merged with
          | none => pure (f.record, f.met)
          | some merged =>
            let keys ← match f.met with
              | some keys => pure keys
              | none => stringKeys d bound (pairs.map Prod.fst)
            let mappings ← mergedMappings d merged
            let (record, keys) ← mappings.foldlM (fill d type bound k) (f.record, some keys)
            pure (record, if f.met.isSome then keys else none)
      | _ => do
        unfit n type.shape
        pure (record, met)) bound id

end Decode

/-- Why a document was not decoded. -/
inductive DecodeError where
  | malformed
  | unfit (problems : List Text)
  deriving Repr, DecidableEq

/-- Decodes a document into a record. -/
def Document.decode {ρ : Type} (d : Document) (type : Nat → Decode.RecordType ρ) (start : ρ) : Except DecodeError ρ :=
  let bound := d.nodes.size + 1
  match (do Decode.count; Decode.fill d (type bound) bound bound (start, none) d.root).run {} with
  | none => .error .malformed
  | some ((record, _), p) => if p.problems.isEmpty then .ok record else .error (.unfit p.problems.toList)

end SignalAudit.Yaml
