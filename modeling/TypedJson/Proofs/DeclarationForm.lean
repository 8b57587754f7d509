import Mathlib.Data.List.Forall2
import TypedJson.Declaration.Decoding
import TypedJson.Proofs.LiteralText
/-!
# How declarations are written in JSON

A type expression, a declaration or a unit can be written as JSON in more than one way: the members
of an object may stand in any order, and a field may be left out where it has its default.  The
relation `Written` holds between each of them and all values that it can be written as.  There is
always one, with all fields in their usual order (`SourceUnit.exists_fileWritten`).

The relation is the specification of the reader, and does not mention it.  A field is
described by the values that it may have, `none` standing for its absence; a record is an
object that has the fields so described, in any order and none besides.  That nothing is
specified away is the last section: every declaration has at least one form.
-/
namespace TypedJson

/-! ## Records -/

namespace Form

/-- The field is there, with a value of the form. -/
def Present (P : Json → Prop) (field : Option Json) : Prop := ∃ j, field = some j ∧ P j

/-- The field is there, or it is left out since the value is the default. -/
def Defaulted (isDefault : Prop) (P : Json → Prop) (field : Option Json) : Prop :=
  (field = none ∧ isDefault) ∨ Present P field

/-- An object of the fields, in any order, and no others. -/
def Record (fields : List (String × (Option Json → Prop))) (j : Json) : Prop :=
  ∃ members, j = .object members ∧ (members.map (·.1)).Nodup ∧
    (∀ name ∈ members.map (·.1), name ∈ fields.map (·.1)) ∧
    ∀ f ∈ fields, f.2 (Json.member? f.1 members)

/-- A list of the values in their order. -/
def ListOf {α : Type} (P : α → Json → Prop) (xs : List α) (j : Json) : Prop :=
  ∃ js, j = .array js ∧ List.Forall₂ P xs js

/-- `null` is no value. -/
def Nullable {α : Type} (P : α → Json → Prop) : Option α → Json → Prop
  | none, j => j = .null
  | some a, j => P a j

def Text (s : String) (j : Json) : Prop := j = .string s

def Flag (b : Bool) (j : Json) : Prop := j = .bool b

end Form

open Form

/-! ## Type expressions -/

/-- A number may be written as an integer or with a point, and zero with either sign. -/
def Literal.Written : Literal → Json → Prop
  | .bool b, j => j = .bool b
  | .num d _, j => ∃ n : JsonNumber, j = .number n ∧ n.Fits ∧ n.toDouble.unsignedZero = d
  | .str s, j => j = .string s

namespace TypeExpr

mutual

def Written : TypeExpr → Json → Prop
  | .name n, j => j = .string n
  | .generic n args, j =>
    Record [("ref", Present (Text n)),
      ("args", Defaulted (args = []) fun j => ∃ js, j = .array js ∧ WrittenAll args js)] j
  | .array e, j => Record [("array", Present (Written e))] j
  | .union branches, j =>
    Record [("union", Present fun j => ∃ js, j = .array js ∧ WrittenAll branches js)] j
  | .intersection parts, j =>
    Record [("intersection", Present fun j => ∃ js, j = .array js ∧ WrittenAll parts js)] j
  | .literal l, j => Record [("literal", Present l.Written)] j
  | .object members indexes, j =>
    Record [("object", Present (Record [
      ("members", Defaulted (members = []) fun j => ∃ js, j = .array js ∧ WrittenMembers members js),
      ("indexes", Defaulted (indexes = []) fun j =>
        ∃ js, j = .array js ∧ WrittenIndexes indexes js)]))] j

def WrittenAll : List TypeExpr → List Json → Prop
  | [], js => js = []
  | e :: es, js => ∃ j rest, js = j :: rest ∧ Written e j ∧ WrittenAll es rest

def WrittenOption : Option TypeExpr → Json → Prop
  | none, j => j = .null
  | some e, j => Written e j

def WrittenMember : MemberDecl TypeExpr → Json → Prop
  | ⟨n, optional, method, type⟩, j =>
    Record [("name", Present (Text n)),
      ("optional", Defaulted (optional = false) (Flag optional)),
      ("method", Defaulted (method = false) (Flag method)),
      ("type", Defaulted (type = none) (WrittenOption type))] j

def WrittenMembers : List (MemberDecl TypeExpr) → List Json → Prop
  | [], js => js = []
  | m :: ms, js => ∃ j rest, js = j :: rest ∧ WrittenMember m j ∧ WrittenMembers ms rest

def WrittenIndex : IndexDecl TypeExpr → Json → Prop
  | ⟨key, value⟩, j =>
    Record [("key", Present (Written key)), ("value", Present (Written value))] j

def WrittenIndexes : List (IndexDecl TypeExpr) → List Json → Prop
  | [], js => js = []
  | x :: xs, js => ∃ j rest, js = j :: rest ∧ WrittenIndex x j ∧ WrittenIndexes xs rest

end

end TypeExpr

/-! ## Declarations -/

def EnumMember.Written (m : EnumMember) : Json → Prop :=
  Record [("name", Present (Text m.name)),
    ("value", Defaulted (m.value = none) (Nullable Literal.Written m.value))]

/-- The fields that every declaration has, the tag of its kind included. -/
def Declaration.commonFields (d : Declaration) (kind : String) :
    List (String × (Option Json → Prop)) :=
  [("kind", Present (Text kind)), ("name", Present (Text d.name)),
    ("exported", Defaulted (d.exported = true) (Flag d.exported)),
    ("line", Defaulted (d.line = none) (Nullable (fun n j => j = .nat n) d.line))]

def Declaration.Written (d : Declaration) : Json → Prop :=
  let typeParams := ("typeParams", Defaulted (d.typeParams = []) (ListOf Text d.typeParams))
  match d.body with
  | .interface bases members indexes =>
    Record (d.commonFields "interface" ++ [typeParams,
      ("extends", Defaulted (bases = []) (ListOf TypeExpr.Written bases)),
      ("members", Defaulted (members = []) (ListOf TypeExpr.WrittenMember members)),
      ("indexes", Defaulted (indexes = []) (ListOf TypeExpr.WrittenIndex indexes))])
  | .typeAlias e => Record (d.commonFields "alias" ++ [typeParams, ("type", Present e.Written)])
  | .enum members =>
    Record (d.commonFields "enum" ++
      [("members", Defaulted (members = []) (ListOf EnumMember.Written members))])

def SourceUnit.Written (u : SourceUnit) : Json → Prop :=
  Record [("file", Present (Text u.file)),
    ("declarations", Defaulted (u.declarations = []) (ListOf Declaration.Written u.declarations))]

/-- A line is a number of 32 bits, and an enum has no type parameters. -/
def Declaration.Proper (d : Declaration) : Prop :=
  (∀ n, d.line = some n → n < twoTo 32) ∧ (∀ members, d.body = .enum members → d.typeParams = [])

/-- A file of the units: their list, or the unit itself if it is the only one. -/
def SourceUnit.FileWritten (units : List SourceUnit) (j : Json) : Prop :=
  ListOf SourceUnit.Written units j ∨ ∃ u, units = [u] ∧ u.Written j

/-! ## Everything can be written

The usual form has all fields, so it suffices to write each of them, and the names of the
fields are different. -/

namespace Form

theorem exists_defaulted {isDefault : Prop} {P : Json → Prop} (h : ∃ j, P j) :
    ∃ j, Defaulted isDefault P (some j) := by
  obtain ⟨j, hj⟩ := h
  exact ⟨j, .inr ⟨j, rfl, hj⟩⟩

theorem exists_present {P : Json → Prop} (h : ∃ j, P j) : ∃ j, Present P (some j) := by
  obtain ⟨j, hj⟩ := h
  exact ⟨j, j, rfl, hj⟩

theorem exists_listOf {α : Type} {P : α → Json → Prop} : ∀ {xs : List α},
    (∀ x ∈ xs, ∃ j, P x j) → ∃ j, ListOf P xs j
  | [], _ => ⟨.array [], [], rfl, .nil⟩
  | x :: xs, h => by
    obtain ⟨j, hj⟩ := h x List.mem_cons_self
    obtain ⟨-, js, -, hjs⟩ := exists_listOf fun y hy => h y (List.mem_cons_of_mem _ hy)
    exact ⟨.array (j :: js), j :: js, rfl, .cons hj hjs⟩

theorem member?_nil {α : Type} (name : String) : Json.member? name ([] : List (String × α)) = none := rfl

theorem member?_cons {α : Type} (name other : String) (a : α) (members : List (String × α)) :
    Json.member? name ((other, a) :: members) =
      if other = name then some a else Json.member? name members := by
  unfold Json.member?
  rw [List.find?_cons]
  by_cases h : other = name
  · rw [if_pos h, beq_iff_eq.2 h]
    rfl
  · rw [if_neg h, beq_eq_false_iff_ne.2 h]

theorem exists_record : ∀ {fields : List (String × (Option Json → Prop))},
    (fields.map (·.1)).Nodup → (∀ f ∈ fields, ∃ j, f.2 (some j)) → ∃ j, Record fields j
  | [], _, _ => ⟨.object [], [], rfl, .nil, by simp, by simp⟩
  | (name, P) :: fields, hnodup, h => by
    rw [List.map_cons, List.nodup_cons] at hnodup
    obtain ⟨j, hj⟩ := h _ List.mem_cons_self
    obtain ⟨-, members, -, hnames, hknown, hfields⟩ :=
      exists_record hnodup.2 fun f hf => h f (List.mem_cons_of_mem _ hf)
    refine ⟨.object ((name, j) :: members), (name, j) :: members, rfl, ?_, ?_, ?_⟩
    · rw [List.map_cons, List.nodup_cons]
      exact ⟨fun hmem => hnodup.1 (hknown name hmem), hnames⟩
    · intro other hother
      rcases List.mem_cons.1 hother with rfl | hother
      · exact List.mem_cons_self
      · exact List.mem_cons_of_mem _ (hknown other hother)
    · intro f hf
      rcases List.mem_cons.1 hf with rfl | hf
      · rw [member?_cons, if_pos rfl]
        exact hj
      -- the new field does not hide a later one, as the names are different
      · have hne : name ≠ f.1 := fun heq => hnodup.1 (heq ▸ List.mem_map.2 ⟨f, hf, rfl⟩)
        rw [member?_cons, if_neg hne]
        exact hfields f hf

end Form

/-! The writer puts out every field, also those at their defaults.  So it is enough to give a
form for the parts; there is nothing to choose. -/

theorem Literal.written_toJson (l : Literal) : l.Written l.toJson := by
  cases l with
  | bool b => rfl
  | num d hplain =>
    exact ⟨_, rfl, fits_numberToJson d, by rw [toDouble_numberToJson hplain, unsignedZero_eq hplain]⟩
  | str s => rfl

namespace TypeExpr

mutual

theorem exists_written : ∀ e : TypeExpr, ∃ j, Written e j
  | .name n => ⟨.string n, rfl⟩
  | .generic n args => by
    obtain ⟨js, hjs⟩ := exists_writtenAll args
    refine exists_record (by simp) (List.forall_mem_cons.2 ⟨?_, List.forall_mem_singleton.2 ?_⟩)
    · exact exists_present ⟨_, rfl⟩
    · exact exists_defaulted ⟨_, js, rfl, hjs⟩
  | .array e =>
    exists_record (by simp) (List.forall_mem_singleton.2 (exists_present (exists_written e)))
  | .union branches => by
    obtain ⟨js, hjs⟩ := exists_writtenAll branches
    exact exists_record (by simp) (List.forall_mem_singleton.2 (exists_present ⟨_, js, rfl, hjs⟩))
  | .intersection parts => by
    obtain ⟨js, hjs⟩ := exists_writtenAll parts
    exact exists_record (by simp) (List.forall_mem_singleton.2 (exists_present ⟨_, js, rfl, hjs⟩))
  | .literal l =>
    exists_record (by simp) (List.forall_mem_singleton.2 (exists_present ⟨_, l.written_toJson⟩))
  | .object members indexes => by
    obtain ⟨js, hjs⟩ := exists_writtenMembers members
    obtain ⟨ks, hks⟩ := exists_writtenIndexes indexes
    refine exists_record (by simp) (List.forall_mem_singleton.2 (exists_present ?_))
    refine exists_record (by simp) (List.forall_mem_cons.2 ⟨?_, List.forall_mem_singleton.2 ?_⟩)
    · exact exists_defaulted ⟨_, js, rfl, hjs⟩
    · exact exists_defaulted ⟨_, ks, rfl, hks⟩

theorem exists_writtenAll : ∀ es : List TypeExpr, ∃ js, WrittenAll es js
  | [] => ⟨[], rfl⟩
  | e :: es => by
    obtain ⟨j, hj⟩ := exists_written e
    obtain ⟨js, hjs⟩ := exists_writtenAll es
    exact ⟨j :: js, j, js, rfl, hj, hjs⟩

theorem exists_writtenOption : ∀ type : Option TypeExpr, ∃ j, WrittenOption type j
  | none => ⟨.null, rfl⟩
  | some e => exists_written e

theorem exists_writtenMember : ∀ m : MemberDecl TypeExpr, ∃ j, WrittenMember m j
  | ⟨_, _, _, type⟩ => by
    have htype := exists_writtenOption type
    refine exists_record (by simp) ?_
    simp only [List.forall_mem_cons, List.not_mem_nil, false_implies, implies_true, and_true]
    exact ⟨exists_present ⟨_, rfl⟩, exists_defaulted ⟨_, rfl⟩, exists_defaulted ⟨_, rfl⟩,
      exists_defaulted htype⟩

theorem exists_writtenMembers : ∀ ms : List (MemberDecl TypeExpr), ∃ js, WrittenMembers ms js
  | [] => ⟨[], rfl⟩
  | m :: ms => by
    obtain ⟨j, hj⟩ := exists_writtenMember m
    obtain ⟨js, hjs⟩ := exists_writtenMembers ms
    exact ⟨j :: js, j, js, rfl, hj, hjs⟩

theorem exists_writtenIndex : ∀ x : IndexDecl TypeExpr, ∃ j, WrittenIndex x j
  | ⟨key, value⟩ => by
    have hkey := exists_written key
    have hvalue := exists_written value
    refine exists_record (by simp) (List.forall_mem_cons.2 ⟨?_, List.forall_mem_singleton.2 ?_⟩)
    · exact exists_present hkey
    · exact exists_present hvalue

theorem exists_writtenIndexes : ∀ xs : List (IndexDecl TypeExpr), ∃ js, WrittenIndexes xs js
  | [] => ⟨[], rfl⟩
  | x :: xs => by
    obtain ⟨j, hj⟩ := exists_writtenIndex x
    obtain ⟨js, hjs⟩ := exists_writtenIndexes xs
    exact ⟨j :: js, j, js, rfl, hj, hjs⟩

end

end TypeExpr

theorem EnumMember.exists_written (m : EnumMember) : ∃ j, m.Written j := by
  refine exists_record (by simp) (List.forall_mem_cons.2 ⟨?_, List.forall_mem_singleton.2 ?_⟩)
  · exact exists_present ⟨_, rfl⟩
  · refine exists_defaulted ?_
    cases m.value with
    | none => exact ⟨_, rfl⟩
    | some l => exact ⟨_, l.written_toJson⟩

theorem Declaration.exists_written (d : Declaration) : ∃ j, d.Written j := by
  have hcommon : ∀ kind, ∀ f ∈ d.commonFields kind, ∃ j, f.2 (some j) := by
    intro kind
    simp only [Declaration.commonFields, List.forall_mem_cons, List.not_mem_nil, false_implies,
      implies_true, and_true]
    refine ⟨exists_present ⟨_, rfl⟩, exists_present ⟨_, rfl⟩, exists_defaulted ⟨_, rfl⟩,
      exists_defaulted ?_⟩
    cases d.line with
    | none => exact ⟨_, rfl⟩
    | some n => exact ⟨_, rfl⟩
  -- the three kinds have these fields in common and differ in the rest
  have hparams : ∃ j, ListOf Text d.typeParams j := exists_listOf fun _ _ => ⟨_, rfl⟩
  unfold Declaration.Written
  cases d.body with
  | interface bases members indexes =>
    refine exists_record (by simp [Declaration.commonFields]) (List.forall_mem_append.2 ⟨hcommon _, ?_⟩)
    simp only [List.forall_mem_cons, List.not_mem_nil, false_implies, implies_true, and_true]
    exact ⟨exists_defaulted hparams,
      exists_defaulted (exists_listOf fun e _ => e.exists_written),
      exists_defaulted (exists_listOf fun m _ => TypeExpr.exists_writtenMember m),
      exists_defaulted (exists_listOf fun x _ => TypeExpr.exists_writtenIndex x)⟩
  | typeAlias e =>
    refine exists_record (by simp [Declaration.commonFields]) (List.forall_mem_append.2 ⟨hcommon _, ?_⟩)
    simp only [List.forall_mem_cons, List.not_mem_nil, false_implies, implies_true, and_true]
    exact ⟨exists_defaulted hparams, exists_present e.exists_written⟩
  | enum members =>
    refine exists_record (by simp [Declaration.commonFields]) (List.forall_mem_append.2 ⟨hcommon _, ?_⟩)
    exact List.forall_mem_singleton.2
      (exists_defaulted (exists_listOf fun m _ => m.exists_written))

theorem SourceUnit.exists_written (u : SourceUnit) : ∃ j, u.Written j := by
  refine exists_record (by simp) (List.forall_mem_cons.2 ⟨?_, List.forall_mem_singleton.2 ?_⟩)
  · exact exists_present ⟨_, rfl⟩
  · exact exists_defaulted (exists_listOf fun d _ => d.exists_written)

/-- **Every list of units can be written as a file.** -/
theorem SourceUnit.exists_fileWritten (units : List SourceUnit) : ∃ j, FileWritten units j := by
  obtain ⟨j, hj⟩ := exists_listOf fun u (_ : u ∈ units) => u.exists_written
  exact ⟨j, .inl hj⟩

end TypedJson
