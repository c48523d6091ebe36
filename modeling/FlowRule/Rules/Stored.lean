import FlowRule.Lib.Canonical
import FlowRule.Rules.Accepted
import FlowRule.Rules.Templates

/- Compiled rules in a JSONB column (the JSON tags in internal/domain/types.go, json.Marshal in
   Save and json.Unmarshal in Get and GetActive of internal/adapters/postgres/rules.go). A rule is
   encoded as a document, the column holds a value (`Jsonb`), and the value is decoded member by
   member. Every accepted rule is decoded again, with a predicate that says the same of every event
   (`decodeRules_hold`).

   Description, tags and the place a decoding error names are left out. -/
namespace FlowRule.Rules

/-! Encoding. -/

def omitEmpty (s : String) : Option Json := if s = "" then none else some (.str s)

/-- A json.RawMessage as a document. -/
def rawDocument (texts : Texts) (data : RawMessage) : Json := if data = "" then .null else texts.read data

section
variable (num : Numbers) (texts : Texts)

def encodeValue (value : Option Json) : Option Json :=
  (value.bind (fun v => v.canon.nonNull)).map (Json.renumber (numberText num))

mutual

def encodePredicate : Predicate → Json
  | .mk all any not path op value =>
    Json.fields [
      ("all", match all with
        | some children => if children.isEmpty then none else some (.arr (encodeChildren children))
        | none => none),
      ("any", match any with
        | some children => if children.isEmpty then none else some (.arr (encodeChildren children))
        | none => none),
      ("not", match not with
        | some child => some (encodePredicate child)
        | none => none),
      ("op", omitEmpty op),
      ("path", omitEmpty path),
      ("value", encodeValue num value)]

def encodeChildren : List (Option Predicate) → List Json
  | [] => []
  | none :: rest => .null :: encodeChildren rest
  | some child :: rest => encodePredicate child :: encodeChildren rest

end

def encodeEmit (a : EmitAction) : Json :=
  Json.fields [("data", some (rawDocument texts a.data)), ("topic", some (.str a.topic))]

def encodeEmitEvent (a : EmitEventAction) : Json :=
  Json.fields [
    ("data", some (rawDocument texts a.data)),
    ("partition_key", omitEmpty a.partitionKey),
    ("partition_key_path", omitEmpty a.partitionKeyPath),
    ("partition_key_policy", omitEmpty a.partitionKeyPolicy.text),
    ("type", some (.str a.type))]

def encodeCommand (a : CommandAction) : Json :=
  Json.fields [
    ("data", some (rawDocument texts a.data)), ("destination", some (.str a.destination)), ("name", some (.str a.name))]

def encodeAction (a : Action) : Json :=
  Json.fields [
    ("command", a.command.map (encodeCommand texts)),
    ("emit", a.emit.map (encodeEmit texts)),
    ("emit_event", a.emitEvent.map (encodeEmitEvent texts))]

def encodeActions (actions : List Action) : Json := .arr (actions.map (encodeAction texts))

def encodeRule (r : CompiledRule) : Json :=
  Json.fields [
    ("id", some (.str r.id)),
    ("name", omitEmpty r.name),
    ("otherwise", if r.otherwise.isEmpty then none else some (encodeActions texts r.otherwise)),
    ("priority", some (.num (toString r.priority))),
    ("then", some (encodeActions texts r.then_)),
    ("when", some (encodePredicate num r.when))]

def encodeRules (rules : List CompiledRule) : Json := .arr (rules.map (encodeRule num texts))

def valuesReadable (p : Predicate) : Bool :=
  (parts p).all (fun q => match q with
    | .mk _ _ _ _ _ value => value.all (fun v => decide (Readable num v)))

/-- json.Marshal of the compiled rules; a number that is no float cannot be written. -/
def marshalRules (rules : List CompiledRule) : Except Err Json :=
  if rules.all (fun r => valuesReadable num r.when) then .ok (encodeRules num texts rules)
  else .error (.msg "json: unsupported value: +Inf")

end

/-! The column. -/

/-- The value of a document, with its numbers in the spelling of the column. -/
def columnValue (number : String → String) (v : Json) : Json := v.canon.renumber number

/-- What PostgreSQL makes of a document in a JSONB column, and the reader of its text: a
    value equal to the document up to the order of members, white space and members that are
    written twice. A number may be spelled differently, but as the same number, which Go
    reads as the same float; a whole number that is written without an exponent keeps its
    spelling. -/
structure Jsonb (num : Numbers) (texts : Texts) where
  /-- Whether the document is taken; U+0000, for one, has no place in the column. -/
  takes : Json → Except Err Unit
  number : String → String
  /-- The text of a value or of a part of one. -/
  text : Json → RawMessage
  number_same : ∀ literal, Json.sameNumber literal (number literal) = true
  number_float : ∀ literal, num.goFloat (number literal) = num.goFloat literal
  number_range : ∀ literal, num.goInRange (number literal) = num.goInRange literal
  number_whole : ∀ n : Int, number (toString n) = toString n
  text_canon : ∀ data, (texts.read (text (columnValue number (rawDocument texts data)))).canon =
    columnValue number (rawDocument texts data)
  text_literals : ∀ data, ∀ literal ∈ (texts.read (text (columnValue number (rawDocument texts data)))).literals,
    literal ∈ (columnValue number (rawDocument texts data)).literals
  text_ne : ∀ v, text v ≠ ""

section
variable {num : Numbers} {texts : Texts} (jsonb : Jsonb num texts)

def Jsonb.hold (v : Json) : Json := columnValue jsonb.number v

end

/-! Decoding. -/

def errMismatch : Err := .msg "json: cannot unmarshal"

def decodeString (current : String) : Json → Except Err String
  | .null => .ok current
  | .str s => .ok s
  | _ => .error errMismatch

def decodeInt (current : Int) : Json → Except Err Int
  | .null => .ok current
  | .num literal =>
    match literal.toInt? with
    | some n => .ok n
    | none => .error errMismatch
  | _ => .error errMismatch

def decodePointer {α : Type} (decode : Json → Except Err α) : Json → Except Err (Option α)
  | .null => .ok none
  | v => (decode v).map some

def decodeSlice {α : Type} (decode : Json → Except Err α) : Json → Except Err (List α)
  | .null => .ok []
  | .arr items => items.mapM decode
  | _ => .error errMismatch

/-- A struct: each member sets its field, and a key that names no field is skipped. -/
def decodeStruct {α : Type} (set : String → Json → α → Except Err α) (zero : α) : Json → Except Err α
  | .null => .ok zero
  | .obj members => members.foldlM (fun a m => set m.1 m.2 a) zero
  | _ => .error errMismatch

section
variable (num : Numbers)

mutual

def setMembers : List (String × Json) → Predicate → Except Err Predicate
  | [], p => .ok p
  | m :: rest, p => do
    let p ← setMember m p
    setMembers rest p

def setMember : String × Json → Predicate → Except Err Predicate
  | (key, v), .mk all any not path op value =>
    if key = "all" then (decodeChildren v).map (fun all => .mk all any not path op value)
    else if key = "any" then (decodeChildren v).map (fun any => .mk all any not path op value)
    else if key = "not" then (decodeChild v).map (fun not => .mk all any not path op value)
    else if key = "path" then (decodeString path v).map (fun path => .mk all any not path op value)
    else if key = "op" then (decodeString op v).map (fun op => .mk all any not path op value)
    else if key = "value" then (unmarshal num v).map (fun v => .mk all any not path op v.nonNull)
    else .ok (.mk all any not path op value)

def decodeChildren : Json → Except Err (Option (List (Option Predicate)))
  | .null => .ok none
  | .arr items => (decodeItems items).map some
  | _ => .error errMismatch

def decodeItems : List Json → Except Err (List (Option Predicate))
  | [] => .ok []
  | v :: rest => do
    let child ← decodeChild v
    let children ← decodeItems rest
    .ok (child :: children)

def decodeChild : Json → Except Err (Option Predicate)
  | .null => .ok none
  | .obj members => (setMembers members (.mk none none none "" "" none)).map some
  | _ => .error errMismatch

end

def decodePredicate : Json → Except Err Predicate
  | .null => .ok (.mk none none none "" "" none)
  | .obj members => setMembers num members (.mk none none none "" "" none)
  | _ => .error errMismatch

end

def policyOf (text : String) : PartitionKeyPolicy :=
  if text = "" then .unset
  else if text = "explicit" then .explicit
  else if text = "inherit" then .inherit
  else if text = "from_data" then .fromData
  else .other text

section
variable (text : Json → RawMessage)

def setEmit (key : String) (v : Json) (a : EmitAction) : Except Err EmitAction :=
  if key = "topic" then (decodeString a.topic v).map (fun s => { a with topic := s })
  else if key = "data" then .ok { a with data := text v }
  else .ok a

def setEmitEvent (key : String) (v : Json) (a : EmitEventAction) : Except Err EmitEventAction :=
  if key = "type" then (decodeString a.type v).map (fun s => { a with type := s })
  else if key = "partition_key" then (decodeString a.partitionKey v).map (fun s => { a with partitionKey := s })
  else if key = "partition_key_policy" then
    (decodeString a.partitionKeyPolicy.text v).map (fun s => { a with partitionKeyPolicy := policyOf s })
  else if key = "partition_key_path" then
    (decodeString a.partitionKeyPath v).map (fun s => { a with partitionKeyPath := s })
  else if key = "data" then .ok { a with data := text v }
  else .ok a

def setCommand (key : String) (v : Json) (a : CommandAction) : Except Err CommandAction :=
  if key = "destination" then (decodeString a.destination v).map (fun s => { a with destination := s })
  else if key = "name" then (decodeString a.name v).map (fun s => { a with name := s })
  else if key = "data" then .ok { a with data := text v }
  else .ok a

def setAction (key : String) (v : Json) (a : Action) : Except Err Action :=
  if key = "emit" then
    (decodePointer (decodeStruct (setEmit text) ⟨"", ""⟩) v).map (fun emit => { a with emit := emit })
  else if key = "emit_event" then
    (decodePointer (decodeStruct (setEmitEvent text) ⟨"", "", .unset, "", ""⟩) v).map
      (fun emitEvent => { a with emitEvent := emitEvent })
  else if key = "command" then
    (decodePointer (decodeStruct (setCommand text) ⟨"", "", ""⟩) v).map (fun command => { a with command := command })
  else .ok a

def decodeAction : Json → Except Err Action := decodeStruct (setAction text) ⟨none, none, none⟩

def setRule (num : Numbers) (key : String) (v : Json) (r : CompiledRule) : Except Err CompiledRule :=
  if key = "id" then (decodeString r.id v).map (fun s => { r with id := s })
  else if key = "name" then (decodeString r.name v).map (fun s => { r with name := s })
  else if key = "priority" then (decodeInt r.priority v).map (fun n => { r with priority := n })
  else if key = "when" then (decodePredicate num v).map (fun p => { r with when := p })
  else if key = "then" then (decodeSlice (decodeAction text) v).map (fun actions => { r with then_ := actions })
  else if key = "otherwise" then
    (decodeSlice (decodeAction text) v).map (fun actions => { r with otherwise := actions })
  else .ok r

def decodeRule (num : Numbers) : Json → Except Err CompiledRule :=
  decodeStruct (setRule text num) ⟨"", "", 0, .mk none none none "" "" none, [], []⟩

def decodeRules (num : Numbers) : Json → Except Err (List CompiledRule) := decodeSlice (decodeRule text num)

end

/-! What an accepted rule is decoded to. -/

section
variable {num : Numbers} {texts : Texts} (jsonb : Jsonb num texts)

theorem Jsonb.canon_hold (v : Json) : (jsonb.hold v).canon = jsonb.hold v := by
  unfold Jsonb.hold columnValue
  rw [Json.canon_renumber, Json.canon_canon]

theorem Jsonb.hold_whole (n : Int) : jsonb.hold (.num (toString n)) = .num (toString n) :=
  congrArg Json.num (jsonb.number_whole n)

theorem Jsonb.hold_fields {fs : List (String × Option Json)} (h : (fs.map Prod.fst).Pairwise (· < ·)) :
    jsonb.hold (Json.fields fs) = Json.fields (fs.map (fun field => (field.1, field.2.map jsonb.hold))) := by
  unfold Jsonb.hold columnValue
  rw [Json.canon_fields h, Json.renumber_fields, List.map_map]
  simp only [Function.comp_def, Option.map_map]

variable {α : Type} {p : Predicate}

theorem Jsonb.hold_arr (f : α → Json) (xs : List α) :
    jsonb.hold (.arr (xs.map f)) = .arr (xs.map (fun x => jsonb.hold (f x))) := by
  refine congrArg Json.arr ?_
  induction xs with
  | nil => rfl
  | cons x rest ih => exact congrArg (List.cons (jsonb.hold (f x))) ih

section
variable {α : Type} {set : String → Json → α → Except Err α} {a b : α} {key : String}
  {fs : List (String × Option Json)}

theorem decodeStruct_nil : decodeStruct set a (Json.fields []) = .ok a := rfl

theorem decodeStruct_none :
    decodeStruct set a (Json.fields ((key, none) :: fs)) = decodeStruct set a (Json.fields fs) := rfl

theorem decodeStruct_some {v : Json} (h : set key v a = .ok b) :
    decodeStruct set a (Json.fields ((key, some v) :: fs)) = decodeStruct set b (Json.fields fs) := by
  have hstep : decodeStruct set a (Json.fields ((key, some v) :: fs)) =
      (set key v a).bind (fun b => decodeStruct set b (Json.fields fs)) := rfl
  rw [hstep, h]
  rfl

theorem decodeStruct_optional {o : Option Json} (h : ∀ v, o = some v → set key v a = .ok b) (hnone : o = none → b = a) :
    decodeStruct set a (Json.fields ((key, o) :: fs)) = decodeStruct set b (Json.fields fs) := by
  cases o with
  | none => rw [hnone rfl, decodeStruct_none]
  | some v => exact decodeStruct_some (h v rfl)

theorem decodeStruct_omitEmpty {s : String} (h : set key (.str s) a = .ok b) (hempty : s = "" → b = a) :
    decodeStruct set a (Json.fields ((key, (omitEmpty s).map jsonb.hold) :: fs)) =
      decodeStruct set b (Json.fields fs) := by
  unfold omitEmpty
  by_cases hs : s = ""
  · rw [if_pos hs, hempty hs]
    rfl
  · rw [if_neg hs]
    exact decodeStruct_some h

end

theorem decodePointer_fields {set : String → Json → α → Except Err α} {zero a : α}
    {fs : List (String × Option Json)} (h : decodeStruct set zero (Json.fields fs) = .ok a) :
    decodePointer (decodeStruct set zero) (Json.fields fs) = .ok (some a) := by
  show (decodeStruct set zero (Json.fields fs)).map some = _
  rw [h]
  rfl

def storedData (data : RawMessage) : RawMessage := jsonb.text (jsonb.hold (rawDocument texts data))

def storedEmit (a : EmitAction) : EmitAction := { a with data := storedData jsonb a.data }

def storedEmitEvent (a : EmitEventAction) : EmitEventAction :=
  { a with partitionKeyPolicy := policyOf a.partitionKeyPolicy.text, data := storedData jsonb a.data }

def storedCommand (a : CommandAction) : CommandAction := { a with data := storedData jsonb a.data }

def storedAction (a : Action) : Action :=
  ⟨a.emit.map (storedEmit jsonb), a.emitEvent.map (storedEmitEvent jsonb), a.command.map (storedCommand jsonb)⟩

theorem decode_emit (a : EmitAction) :
    decodePointer (decodeStruct (setEmit jsonb.text) ⟨"", ""⟩) (jsonb.hold (encodeEmit texts a)) =
      .ok (some (storedEmit jsonb a)) := by
  rw [encodeEmit, jsonb.hold_fields]
  · apply decodePointer_fields
    calc _ = _ := decodeStruct_some rfl
      _ = _ := decodeStruct_some rfl
  · exact show ["data", "topic"].Pairwise (· < ·) by decide

theorem decode_emitEvent (a : EmitEventAction) :
    decodePointer (decodeStruct (setEmitEvent jsonb.text) ⟨"", "", .unset, "", ""⟩)
      (jsonb.hold (encodeEmitEvent texts a)) = .ok (some (storedEmitEvent jsonb a)) := by
  rw [encodeEmitEvent, jsonb.hold_fields]
  · apply decodePointer_fields
    calc _ = _ := decodeStruct_some rfl
      _ = _ := decodeStruct_omitEmpty jsonb rfl (fun h => by rw [h])
      _ = _ := decodeStruct_omitEmpty jsonb rfl (fun h => by rw [h])
      _ = _ := decodeStruct_omitEmpty jsonb rfl (fun h => by rw [h]; rfl)
      _ = _ := decodeStruct_some rfl
  · exact show List.Pairwise (· < ·)
      ["data", "partition_key", "partition_key_path", "partition_key_policy", "type"] by decide

theorem decode_command (a : CommandAction) :
    decodePointer (decodeStruct (setCommand jsonb.text) ⟨"", "", ""⟩) (jsonb.hold (encodeCommand texts a)) =
      .ok (some (storedCommand jsonb a)) := by
  rw [encodeCommand, jsonb.hold_fields]
  · apply decodePointer_fields
    calc _ = _ := decodeStruct_some rfl
      _ = _ := decodeStruct_some rfl
      _ = _ := decodeStruct_some rfl
  · exact show ["data", "destination", "name"].Pairwise (· < ·) by decide

variable {v : Json}

theorem setPointer {β : Type} {encode : α → Json} {decode : Json → Except Err (Option β)} {stored : α → β}
    (h : ∀ x, decode (jsonb.hold (encode x)) = .ok (some (stored x))) {o : Option α}
    (hv : (o.map encode).map jsonb.hold = some v) : decode v = .ok (o.map stored) := by
  cases o with
  | none => cases hv
  | some x =>
    cases hv
    exact h x

theorem decode_action (a : Action) : decodeAction jsonb.text (jsonb.hold (encodeAction texts a)) =
    .ok (storedAction jsonb a) := by
  obtain ⟨emit, emitEvent, command⟩ := a
  rw [encodeAction, jsonb.hold_fields]
  · calc _ = _ := decodeStruct_optional (b := ⟨none, none, command.map (storedCommand jsonb)⟩)
          (fun v hv => congrArg (Except.map _) (setPointer jsonb (decode_command jsonb) hv)) (fun h => by
            cases command with
            | none => rfl
            | some c => cases h)
      _ = _ := decodeStruct_optional (b := ⟨emit.map (storedEmit jsonb), none, command.map (storedCommand jsonb)⟩)
          (fun v hv => congrArg (Except.map _) (setPointer jsonb (decode_emit jsonb) hv)) (fun h => by
            cases emit with
            | none => rfl
            | some c => cases h)
      _ = _ := decodeStruct_optional
          (fun v hv => congrArg (Except.map _) (setPointer jsonb (decode_emitEvent jsonb) hv)) (fun h => by
            cases emitEvent with
            | none => rfl
            | some c => cases h)
  · exact show ["command", "emit", "emit_event"].Pairwise (· < ·) by decide


/-! Predicates that come back. -/

structure RoundTrips (num : Numbers) : Prop where
  float : ∀ literal, num.goInRange literal = true → num.goFloat (numberText num literal) = num.goFloat literal
  range : ∀ literal, num.goInRange literal = true → num.goInRange (numberText num literal) = true

section
variable {f : String → String}

def KeepsFloats (num : Numbers) (f : String → String) (v : Json) : Prop :=
  ∀ literal, .num literal ∈ v.leaves → num.goFloat (f literal) = num.goFloat literal

theorem KeepsFloats.item {items : List Json} {item : Json} (h : KeepsFloats num f (.arr items)) (hi : item ∈ items) :
    KeepsFloats num f item := by
  intro literal hl
  apply h
  show _ ∈ Json.leavesItems items
  clear h
  induction items with
  | nil => cases hi
  | cons v rest ih =>
    rcases List.mem_cons.mp hi with rfl | hi
    · exact List.mem_append_left _ hl
    · exact List.mem_append_right _ (ih hi)

theorem nonNull_renumber (v : Json) : (v.renumber f).nonNull = v.nonNull.map (Json.renumber f) := by
  cases v <;> rfl

variable {expected : Option Json} (h : ∀ v ∈ expected, KeepsFloats num f v)
include h

theorem sprint_renumber : sprint num (expected.map (Json.renumber f)) = sprint num expected := by
  cases expected with
  | none => rfl
  | some v =>
    refine Json.render_renumber v (fun literal hl => ?_)
    exact congrArg num.goPrint (h v rfl literal hl)

theorem normalizeNumber_renumber : (normalizeNumber num (expected.map (Json.renumber f))).map (sprintNormal num) =
    (normalizeNumber num expected).map (sprintNormal num) := by
  have hprint := sprint_renumber h
  cases expected with
  | none => rfl
  | some v =>
    cases v with
    | num literal =>
      have hfloat := h _ rfl literal List.mem_cons_self
      show (normalizeNumber num (some (.num (f literal)))).map (sprintNormal num) = _
      simp only [normalizeNumber, hfloat]
      cases num.goInt (num.goFloat literal) with
      | some n => rfl
      | none => exact congrArg some hprint
    | _ => exact congrArg some hprint

theorem compareEq_renumber (actual : Option Json) :
    compareEq num actual (expected.map (Json.renumber f)) = compareEq num actual expected := by
  have hnormal := normalizeNumber_renumber h
  unfold compareEq
  rw [sprint_renumber h]
  generalize normalizeNumber num (expected.map (Json.renumber f)) = new at hnormal
  generalize normalizeNumber num expected = old at hnormal
  -- Both are nil, or they are compared by the same text.
  cases new with
  | none =>
    cases old with
    | none => rfl
    | some b => cases hnormal
  | some a =>
    cases old with
    | none => cases hnormal
    | some b =>
      cases normalizeNumber num actual with
      | none => rfl
      | some c =>
        have htext : sprintNormal num a = sprintNormal num b := Option.some.inj hnormal
        show (_ == sprintNormal num a) = _
        rw [htext]

theorem toFloat64_renumber : toFloat64 num (expected.map (Json.renumber f)) = toFloat64 num expected := by
  cases expected with
  | none => rfl
  | some v =>
    cases v with
    | num literal => exact congrArg some (h _ rfl literal List.mem_cons_self)
    | _ => rfl

theorem compareCmp_renumber (actual : Option Json) :
    compareCmp num actual (expected.map (Json.renumber f)) = compareCmp num actual expected := by
  unfold compareCmp
  rw [toFloat64_renumber h]

theorem compareNumericLeaf_renumber (op : Operator) (name : String) (actual : Option Json) :
    compareNumericLeaf num op name actual (expected.map (Json.renumber f)) =
      compareNumericLeaf num op name actual expected := by
  unfold compareNumericLeaf
  rw [compareCmp_renumber h, sprint_renumber h]

theorem compareIn_renumber (actual : Option Json) :
    compareIn num actual (expected.map (Json.renumber f)) = compareIn num actual expected := by
  cases expected with
  | none => rfl
  | some v =>
    cases v with
    | arr items =>
      show (Json.mapItems (fun literal => .num (f literal)) .str items).any
        (fun item => compareEq num actual item.nonNull) = items.any (fun item => compareEq num actual item.nonNull)
      have hitem : ∀ item ∈ items, KeepsFloats num f item := fun item hi => (h _ rfl).item hi
      clear h
      induction items with
      | nil => rfl
      | cons item rest ih =>
        have hfirst : compareEq num actual (item.renumber f).nonNull = compareEq num actual item.nonNull := by
          rw [nonNull_renumber]
          refine compareEq_renumber ?_ actual
          intro v hv
          cases item <;> cases hv <;> exact hitem _ List.mem_cons_self
        have hrest := ih (fun item hi => hitem item (List.mem_cons_of_mem _ hi))
        simp only [Json.mapItems, List.any_cons, hrest]
        exact congrArg (· || _) hfirst
    | _ => rfl

/-- A leaf compares with such a value as with the value itself. -/
theorem evaluateLeafValue_renumber (op : String) (actual : Option Json) :
    evaluateLeafValue num op actual (expected.map (Json.renumber f)) = evaluateLeafValue num op actual expected := by
  unfold evaluateLeafValue
  simp only [compareEq_renumber h, compareNumericLeaf_renumber h, compareIn_renumber h]

end

theorem nonNull_eq_some {w : Json} (h : v.nonNull = some w) : w = v ∧ w.nonNull = some w := by
  cases v <;> cases h <;> exact ⟨rfl, rfl⟩

def storedValue (value : Option Json) : Option Json := ((encodeValue num value).map jsonb.hold).bind Json.nonNull

/-- What a leaf compares with, before and after. -/
theorem storedValue_canon (value : Option Json) :
    (storedValue jsonb value).bind (fun v => v.canon.nonNull) =
      (value.bind (fun v => v.canon.nonNull)).map
        (Json.renumber (fun literal => jsonb.number (numberText num literal))) := by
  cases value with
  | none => rfl
  | some v =>
    unfold storedValue encodeValue
    simp only [Option.bind_some]
    cases hv : v.canon.nonNull with
    | none => rfl
    | some w =>
      have hw := nonNull_eq_some hv
      have hhold : jsonb.hold (w.renumber (numberText num)) =
          w.renumber (fun literal => jsonb.number (numberText num literal)) := by
        unfold Jsonb.hold columnValue
        rw [Json.canon_renumber, Json.renumber_renumber, hw.1, Json.canon_canon]
      have hnonNull : (jsonb.hold (w.renumber (numberText num))).nonNull =
          some (jsonb.hold (w.renumber (numberText num))) := by
        rw [hhold, nonNull_renumber, hw.2]
        rfl
      simp only [Option.map_some, Option.bind_some]
      rw [hnonNull, Option.bind_some, jsonb.canon_hold, hnonNull, hhold]

variable {value : Option Json}

theorem keepsFloats_stored (hnum : RoundTrips num) (h : ∀ v ∈ value, Readable num v) :
    ∀ v ∈ value.bind (fun v => v.canon.nonNull),
      KeepsFloats num (fun literal => jsonb.number (numberText num literal)) v := by
  intro w hw literal hl
  obtain ⟨v, hv, hvw⟩ := Option.bind_eq_some_iff.mp hw
  have hin : literal ∈ v.literals := Json.mem_literals.mpr (Json.leaves_canon v ((nonNull_eq_some hvw).1 ▸ hl))
  rw [jsonb.number_float, hnum.float literal (h v hv literal hin)]

theorem unmarshal_hold (hnum : RoundTrips num) (h : ∀ v ∈ value, Readable num v)
    (hv : (encodeValue num value).map jsonb.hold = some v) : unmarshal num v = .ok v := by
  obtain ⟨w, hw, rfl⟩ := Option.map_eq_some_iff.mp hv
  obtain ⟨u, hu, rfl⟩ := Option.map_eq_some_iff.mp hw
  obtain ⟨d, hd, hdu⟩ := Option.bind_eq_some_iff.mp hu
  have hread : Readable num (jsonb.hold (u.renumber (numberText num))) := by
    intro literal hl
    obtain ⟨l, hlit, rfl⟩ := Json.mem_literals_renumber.mp hl
    rw [Json.canon_renumber, (nonNull_eq_some hdu).1, Json.canon_canon] at hlit
    obtain ⟨l', hlit', rfl⟩ := Json.mem_literals_renumber.mp hlit
    rw [jsonb.number_range]
    exact hnum.range l' (h d hd l' (Json.literals_canon hlit'))
  rw [unmarshal_readable hread, jsonb.canon_hold]

theorem setMembers_eq (members : List (String × Json)) (p : Predicate) :
    setMembers num members p = members.foldlM (fun p m => setMember num (m.1, m.2) p) p := by
  induction members generalizing p with
  | nil => rfl
  | cons m rest ih =>
    rw [setMembers, List.foldlM_cons]
    exact congrArg (Bind.bind (setMember num m p)) (funext (fun q => ih q))

theorem decodePredicate_fields (fs : List (String × Option Json)) :
    decodePredicate num (Json.fields fs) =
      decodeStruct (fun key v p => setMember num (key, v) p) (.mk none none none "" "" none) (Json.fields fs) :=
  setMembers_eq _ _

theorem decodeChild_fields (fs : List (String × Option Json)) :
    decodeChild num (Json.fields fs) = (decodePredicate num (Json.fields fs)).map some := by
  unfold Json.fields decodePredicate
  rw [decodeChild]

theorem hold_predicate (all any : Option (List (Option Predicate))) (not : Option Predicate) (path op : String)
    (value : Option Json) :
    jsonb.hold (encodePredicate num (.mk all any not path op value)) = Json.fields [
      ("all", (match all with
        | some children => if children.isEmpty then none else some (Json.arr (encodeChildren num children))
        | none => none).map jsonb.hold),
      ("any", (match any with
        | some children => if children.isEmpty then none else some (Json.arr (encodeChildren num children))
        | none => none).map jsonb.hold),
      ("not", (match not with
        | some child => some (encodePredicate num child)
        | none => none).map jsonb.hold),
      ("op", (omitEmpty op).map jsonb.hold),
      ("path", (omitEmpty path).map jsonb.hold),
      ("value", (encodeValue num value).map jsonb.hold)] := by
  conv_lhs => unfold encodePredicate
  rw [jsonb.hold_fields]
  · rfl
  · exact show ["all", "any", "not", "op", "path", "value"].Pairwise (· < ·) by decide

/-- A predicate is decoded to its parts. -/
theorem decodePredicate_parts (hnum : RoundTrips num) (hvalue : ∀ v ∈ value, Readable num v)
    {a b c : Option Json} {all any : Option (List (Option Predicate))} {not : Option Predicate} (path op : String)
    (hall : ∀ v, a = some v → decodeChildren num v = .ok all) (hnoAll : a = none → all = none)
    (hany : ∀ v, b = some v → decodeChildren num v = .ok any) (hnoAny : b = none → any = none)
    (hnot : ∀ v, c = some v → decodeChild num v = .ok not) (hnoNot : c = none → not = none) :
    decodePredicate num (Json.fields [("all", a), ("any", b), ("not", c), ("op", (omitEmpty op).map jsonb.hold),
      ("path", (omitEmpty path).map jsonb.hold), ("value", (encodeValue num value).map jsonb.hold)]) =
      .ok (.mk all any not path op (storedValue jsonb value)) := by
  rw [decodePredicate_fields]
  refine (decodeStruct_optional (b := .mk all none none "" "" none) (fun v hv => ?_) (fun h => ?_)).trans ?_
  · simp [setMember, hall v hv, Except.map]
  · rw [hnoAll h]
  refine (decodeStruct_optional (b := .mk all any none "" "" none) (fun v hv => ?_) (fun h => ?_)).trans ?_
  · simp [setMember, hany v hv, Except.map]
  · rw [hnoAny h]
  refine (decodeStruct_optional (b := .mk all any not "" "" none) (fun v hv => ?_) (fun h => ?_)).trans ?_
  · simp [setMember, hnot v hv, Except.map]
  · rw [hnoNot h]
  refine (decodeStruct_omitEmpty jsonb (b := .mk all any not "" op none) ?_ (fun h => ?_)).trans ?_
  · simp [setMember, decodeString, Except.map]
  · rw [h]
  refine (decodeStruct_omitEmpty jsonb (b := .mk all any not path op none) ?_ (fun h => ?_)).trans ?_
  · simp [setMember, decodeString, Except.map]
  · rw [h]
  refine (decodeStruct_optional (b := .mk all any not path op (storedValue jsonb value)) (fun v hv => ?_)
    (fun h => ?_)).trans decodeStruct_nil
  · simp [setMember, unmarshal_hold jsonb hnum hvalue hv, Except.map, storedValue, hv]
  · simp [storedValue, h]

theorem encodeChildren_map (children : List Predicate) :
    encodeChildren num (children.map some) = children.map (encodePredicate num) := by
  induction children with
  | nil => rfl
  | cons child rest ih => exact congrArg (List.cons (encodePredicate num child)) ih

def SaysSame (num : Numbers) (q p : Predicate) : Prop :=
  ∀ data facts, evalPredicate num data facts q = evalPredicate num data facts p

theorem evalAll_same {qs ps : List Predicate} (h : List.Forall₂ (SaysSame num) qs ps) (data : Json) (facts : Facts) :
    evalAll num data facts (qs.map some) = evalAll num data facts (ps.map some) := by
  induction h with
  | nil => rfl
  | cons hfirst hrest ih => simp only [List.map_cons, evalAll, hfirst data facts, ih]

theorem evalAny_same {qs ps : List Predicate} (h : List.Forall₂ (SaysSame num) qs ps) (data : Json) (facts : Facts) :
    evalAny num data facts (qs.map some) = evalAny num data facts (ps.map some) := by
  induction h with
  | nil => rfl
  | cons hfirst hrest ih => simp only [List.map_cons, evalAny, hfirst data facts, ih]

def ComesBack (p : Predicate) : Prop :=
  ∃ q, decodePredicate num (jsonb.hold (encodePredicate num p)) = .ok q ∧ SaysSame num q p

theorem ComesBack.child (h : ComesBack jsonb p) :
    ∃ q, decodeChild num (jsonb.hold (encodePredicate num p)) = .ok (some q) ∧ SaysSame num q p := by
  obtain ⟨q, hq, hsame⟩ := h
  obtain ⟨all, any, not, path, op, value⟩ := p
  rw [hold_predicate] at hq ⊢
  exact ⟨q, by rw [decodeChild_fields, hq]; rfl, hsame⟩

theorem decodeChildren_hold {children : List Predicate} (h : ∀ child ∈ children, ComesBack jsonb child) :
    ∃ qs, decodeChildren num (jsonb.hold (.arr (encodeChildren num (children.map some)))) = .ok (some (qs.map some)) ∧
      List.Forall₂ (SaysSame num) qs children := by
  rw [encodeChildren_map, jsonb.hold_arr]
  suffices hitems : ∃ qs, decodeItems num (children.map (fun child => jsonb.hold (encodePredicate num child))) =
      .ok (qs.map some) ∧ List.Forall₂ (SaysSame num) qs children by
    obtain ⟨qs, hqs, hsame⟩ := hitems
    exact ⟨qs, by rw [decodeChildren, hqs]; rfl, hsame⟩
  induction children with
  | nil => exact ⟨[], rfl, .nil⟩
  | cons child rest ih =>
    obtain ⟨hchild, hrest⟩ := List.forall_mem_cons.mp h
    obtain ⟨q, hq, hsame⟩ := hchild.child
    obtain ⟨qs, hqs, hsames⟩ := ih hrest
    refine ⟨q :: qs, ?_, .cons hsame hsames⟩
    rw [List.map_cons, decodeItems, hq, hqs]
    rfl

theorem valuesReadable_iff : valuesReadable num p = true ↔
    ∀ all any not path op value, Predicate.mk all any not path op value ∈ parts p → ∀ v ∈ value, Readable num v := by
  unfold valuesReadable
  rw [List.all_eq_true]
  constructor
  · intro h all any not path op value hmem v hv
    have hvalue := h _ hmem
    rw [Option.all_eq_true] at hvalue
    exact of_decide_eq_true (hvalue v hv)
  · rintro h ⟨all, any, not, path, op, value⟩ hmem
    rw [Option.all_eq_true]
    exact fun v hv => decide_eq_true (h all any not path op value hmem v hv)

/-- Every accepted predicate comes back. -/
theorem comesBack (hnum : RoundTrips num) (hg : InGrammar p) (hr : valuesReadable num p = true) :
    ComesBack jsonb p := by
  rw [valuesReadable_iff] at hr
  induction hg with
  | leaf path op value hpath hop =>
    have hvalue := hr none none none path op value List.mem_cons_self
    refine ⟨.mk none none none path op (storedValue jsonb value), ?_, ?_⟩
    · rw [hold_predicate]
      apply decodePredicate_parts jsonb hnum hvalue <;> simp
    · intro data facts
      show evalLeaf num path op _ data facts = evalLeaf num path op value data facts
      unfold evalLeaf
      rw [storedValue_canon]
      simp only [evaluateLeafValue_renumber (keepsFloats_stored jsonb hnum hvalue)]
  | all children op value hne _ ih =>
    have hvalue := hr _ _ _ _ _ _ (mem_parts_self (.mk (some (children.map some)) none none "" op value))
    obtain ⟨qs, hqs, hsame⟩ := decodeChildren_hold jsonb (fun child hc => ih child hc (fun _ _ _ _ _ _ hmem =>
      hr _ _ _ _ _ _ (List.mem_cons_of_mem _ (mem_partsOf.mpr ⟨child, hc, hmem⟩))))
    refine ⟨.mk (some (qs.map some)) none none "" op (storedValue jsonb value), ?_, fun data facts => ?_⟩
    · rw [hold_predicate]
      apply decodePredicate_parts jsonb hnum hvalue <;> simp [hne, hqs]
    · simp only [evalPredicate, evalAll_same hsame]
  | any children op value hne _ ih =>
    have hvalue := hr _ _ _ _ _ _ (mem_parts_self (.mk none (some (children.map some)) none "" op value))
    obtain ⟨qs, hqs, hsame⟩ := decodeChildren_hold jsonb (fun child hc => ih child hc (fun _ _ _ _ _ _ hmem =>
      hr _ _ _ _ _ _ (List.mem_cons_of_mem _ (mem_partsOf.mpr ⟨child, hc, hmem⟩))))
    refine ⟨.mk none (some (qs.map some)) none "" op (storedValue jsonb value), ?_, fun data facts => ?_⟩
    · rw [hold_predicate]
      apply decodePredicate_parts jsonb hnum hvalue <;> simp [hne, hqs]
    · simp only [evalPredicate, evalAny_same hsame]
  | not child op value _ ih =>
    have hvalue := hr _ _ _ _ _ _ (mem_parts_self (.mk none none (some child) "" op value))
    obtain ⟨q, hq, hsame⟩ := (ih (fun _ _ _ _ _ _ hmem => hr _ _ _ _ _ _ (List.mem_cons_of_mem _ hmem))).child
    refine ⟨.mk none none (some q) "" op (storedValue jsonb value), ?_, fun data facts => ?_⟩
    · rw [hold_predicate]
      apply decodePredicate_parts jsonb hnum hvalue <;> simp [hq]
    · simp only [evalPredicate, hsame data facts]

/-! Rules that come back. -/

theorem mapM_hold {β : Type} {encode : α → Json} {decode : Json → Except Err β} {R : α → β → Prop} {xs : List α}
    (h : ∀ x ∈ xs, ∃ y, decode (jsonb.hold (encode x)) = .ok y ∧ R x y) :
    ∃ ys, decodeSlice decode (jsonb.hold (.arr (xs.map encode))) = .ok ys ∧ List.Forall₂ R xs ys := by
  rw [jsonb.hold_arr]
  show ∃ ys, (xs.map (fun x => jsonb.hold (encode x))).mapM decode = .ok ys ∧ List.Forall₂ R xs ys
  induction xs with
  | nil => exact ⟨[], rfl, .nil⟩
  | cons x rest ih =>
    obtain ⟨hfirst, hrest⟩ := List.forall_mem_cons.mp h
    obtain ⟨y, hy, hR⟩ := hfirst
    obtain ⟨ys, hys, hRs⟩ := ih hrest
    refine ⟨y :: ys, ?_, .cons hR hRs⟩
    rw [List.map_cons, List.mapM_cons, hy, hys]
    rfl

theorem decode_actions (actions : List Action) :
    decodeSlice (decodeAction jsonb.text) (jsonb.hold (encodeActions texts actions)) =
      .ok (actions.map (storedAction jsonb)) := by
  obtain ⟨ys, hys, hall⟩ := mapM_hold jsonb (R := fun a a' => storedAction jsonb a = a')
    (fun a (_ : a ∈ actions) => ⟨_, decode_action jsonb a, rfl⟩)
  have hmap : List.Forall₂ (fun a b => a = b) (actions.map (storedAction jsonb)) ys :=
    List.forall₂_map_left_iff.mpr hall
  rw [List.forall₂_eq_eq_eq] at hmap
  rw [hmap]
  exact hys

structure StoredAs (r r' : CompiledRule) : Prop where
  id : r'.id = r.id
  when : SaysSame num r'.when r.when
  then_ : r'.then_ = r.then_.map (storedAction jsonb)
  otherwise : r'.otherwise = r.otherwise.map (storedAction jsonb)

theorem decode_rule (hnum : RoundTrips num) {r : CompiledRule} (hg : InGrammar r.when)
    (hr : valuesReadable num r.when = true) :
    ∃ r', decodeRule jsonb.text num (jsonb.hold (encodeRule num texts r)) = .ok r' ∧ StoredAs jsonb r r' := by
  obtain ⟨q, hq, hsame⟩ := comesBack jsonb hnum hg hr
  obtain ⟨id, name, priority, when, then_, otherwise⟩ := r
  refine ⟨⟨id, name, priority, q, then_.map (storedAction jsonb), otherwise.map (storedAction jsonb)⟩, ?_,
    ⟨rfl, hsame, rfl, rfl⟩⟩
  rw [encodeRule, jsonb.hold_fields]
  · refine (decodeStruct_some rfl).trans ?_
    refine (decodeStruct_omitEmpty jsonb rfl (fun h => by rw [h])).trans ?_
    refine (decodeStruct_optional (b := ⟨id, name, 0, .mk none none none "" "" none, [],
      otherwise.map (storedAction jsonb)⟩) (fun v hv => ?_) (fun h => ?_)).trans ?_
    · cases otherwise with
      | nil => cases hv
      | cons a rest =>
        cases hv
        exact congrArg (Except.map _) (decode_actions jsonb (a :: rest))
    · cases otherwise with
      | nil => rfl
      | cons a rest => cases h
    refine (decodeStruct_some (b := ⟨id, name, priority, .mk none none none "" "" none, [],
      otherwise.map (storedAction jsonb)⟩) ?_).trans ?_
    · rw [jsonb.hold_whole]
      simp [setRule, decodeInt, Int.toString_eq_repr, Int.toInt?_repr, Except.map]
    refine (decodeStruct_some (b := ⟨id, name, priority, .mk none none none "" "" none, then_.map (storedAction jsonb),
      otherwise.map (storedAction jsonb)⟩) ?_).trans ?_
    · exact congrArg (Except.map _) (decode_actions jsonb then_)
    refine (decodeStruct_some ?_).trans decodeStruct_nil
    exact congrArg (Except.map _) hq
  · exact show ["id", "name", "otherwise", "priority", "then", "when"].Pairwise (· < ·) by decide

/-- Accepted rules that could be written are decoded again, each as it was. -/
theorem decodeRules_hold (hnum : RoundTrips num) {rules : List CompiledRule} {document : Json}
    (hg : ∀ r ∈ rules, InGrammar r.when) (hm : marshalRules num texts rules = .ok document) :
    ∃ rules', decodeRules jsonb.text num (jsonb.hold document) = .ok rules' ∧
      List.Forall₂ (StoredAs jsonb) rules rules' := by
  unfold marshalRules at hm
  split at hm
  · rename_i hread
    cases hm
    refine mapM_hold jsonb (fun r hr => ?_)
    exact decode_rule jsonb hnum (hg r hr) (List.all_eq_true.mp hread r hr)
  · cases hm

end

end FlowRule.Rules
