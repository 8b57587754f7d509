import TypedJson.Proofs.DeclarationForm
import TypedJson.Proofs.ReportFile
/-!
# Declarations are read as they were written

However a file of units is written, in whatever order its members stand and whichever defaults it
leaves out, the units that are read from it are those that were written
(`DeclarationFormat.file?_of_fileWritten`).  The forms of type expressions are told apart by the
names of their members, the kinds of declarations by their tag: no form is read as an earlier one.

Reading goes by lookups of names, so the order of members has no bearing on it; what has to
be looked after is that an object is not read as another form than the one it was written
in.  The reader tries the forms in a fixed order by a name that each of them requires, and
the fields of every later form lack it.  The fuel is the depth of the value, which a document
read from a file bounds.
-/
namespace TypedJson
namespace DeclarationFormat

open Form

/-! ## Fields

What a lookup finds of a field that is there, or that was left out at its default. -/

section
variable {members : List (String × Json)} {fields : List (String × (Option Json → Prop))}

theorem field?_eq (hnodup : (members.map (·.1)).Nodup) (name : String) :
    field? members name = some (Json.member? name members) := by
  induction members with
  | nil => rfl
  | cons m rest ih =>
    rw [List.map_cons, List.nodup_cons] at hnodup
    by_cases hm : m.1 = name
    · have hrest : rest.filter (·.1 == name) = [] := by
        refine List.filter_eq_nil_iff.2 fun m' hm' heq => hnodup.1 ?_
        rw [hm, ← beq_iff_eq.1 heq]
        exact List.mem_map_of_mem hm'
      simp [field?, Json.member?, hm, hrest]
    · have hskip := ih hnodup.2
      unfold field? Json.member? at hskip ⊢
      rw [List.filter_cons_of_neg (by simpa using hm), List.find?_cons_of_neg (by simpa using hm)]
      exact hskip

theorem objectFields?_eq (hnodup : (members.map (·.1)).Nodup) : ∀ names : List String,
    objectFields? names members = some (names.map (Json.member? · members))
  | [] => rfl
  | name :: names => by
    have hrest := objectFields?_eq hnodup names
    unfold objectFields? at hrest ⊢
    rw [List.mapM_cons, field?_eq hnodup, hrest]
    rfl

theorem member?_eq_none {name : String} (h : name ∉ members.map (·.1)) :
    Json.member? name members = none := by
  unfold Json.member?
  rw [List.find?_eq_none.2 fun m hm heq => h (List.mem_map.2 ⟨m, hm, beq_iff_eq.1 heq⟩)]
  rfl

theorem depth_lt_of_mem {j : Json} : ∀ {members : List (String × Json)} {name : String},
    (name, j) ∈ members → j.depth < (Json.object members).depth
  | m :: rest, name, h => by
    rw [Json.depth, Json.depthMembers]
    rcases List.mem_cons.1 h with rfl | h
    · dsimp only
      omega
    · have hlt := depth_lt_of_mem h
      rw [Json.depth] at hlt
      omega

theorem depth_cons_lt_iff {j : Json} {js : List Json} {n : Nat} :
    (Json.array (j :: js)).depth < n + 1 ↔ j.depth < n ∧ (Json.array js).depth < n + 1 := by
  rw [Json.depth, Json.depthAll, Json.depth]
  omega

variable {α : Type} {decode : Json → Option α} {a default : α} {P : Json → Prop} {field : Option Json}

theorem required_of_present (h : Present P field) (hP : ∀ j, field = some j → P j → decode j = some a) :
    required decode field = some a := by
  obtain ⟨j, rfl, hj⟩ := h
  exact hP j rfl hj

theorem withDefault_of_defaulted {isDefault : Prop} (h : Defaulted isDefault P field)
    (hdefault : isDefault → a = default)
    (hP : ∀ j, field = some j → P j → decode j = some a) :
    withDefault default decode field = some a := by
  rcases h with ⟨rfl, hd⟩ | ⟨j, rfl, hj⟩
  · exact congrArg some (hdefault hd).symm
  · exact hP j rfl hj

theorem list?_cons {decode : Json → Option α} {j : Json} {js : List Json} {xs : List α}
    (hfirst : decode j = some a) (hrest : list? decode (.array js) = some xs) :
    list? decode (.array (j :: js)) = some (a :: xs) := by
  unfold list? at hrest ⊢
  dsimp only at hrest ⊢
  rw [List.mapM_cons, hfirst, hrest]
  rfl

theorem list?_of_listOf {β : Type} {decode : Json → Option β} {Q : β → Json → Prop} {xs : List β}
    {j : Json} (h : ListOf Q xs j) (hQ : ∀ x ∈ xs, ∀ j, Q x j → decode j = some x) :
    list? decode j = some xs := by
  obtain ⟨js, rfl, hjs⟩ := h
  induction hjs with
  | nil => rfl
  | cons hx _ ih =>
    exact list?_cons (hQ _ List.mem_cons_self _ hx)
      (ih fun y hy => hQ y (List.mem_cons_of_mem _ hy))

theorem nullable_of_ne {j : Json} (h : j ≠ .null) : nullable decode j = (decode j).map some := by
  cases j with
  | null => exact absurd rfl h
  | _ => rfl

end

/-! ## Type expressions

By recursion on the expression, with the lists of its parts. -/

theorem ofJson?_of_written {l : Literal} {j : Json} (h : l.Written j) :
    Literal.ofJson? j = some l := by
  cases l with
  | bool b =>
    obtain rfl : j = .bool b := h
    rfl
  | num d hplain =>
    obtain ⟨n, rfl, -, rfl⟩ := h
    rfl
  | str s =>
    obtain rfl : j = .string s := h
    rfl

theorem string?_of_text {s : String} {j : Json} (h : Text s j) : string? j = some s := by
  obtain rfl : j = .string s := h
  rfl

theorem bool?_of_flag {b : Bool} {j : Json} (h : Flag b j) : bool? j = some b := by
  obtain rfl : j = .bool b := h
  rfl

theorem ne_null_of_written {e : TypeExpr} {j : Json} (h : e.Written j) : j ≠ .null := by
  rintro rfl
  cases e with
  | name n => cases h
  | _ =>
    obtain ⟨members, hj, -⟩ := h
    cases hj

/-! An object is read by the first of six fields that it has.  Since its names are those of the
record it was written as, the fields before the right one are absent. -/

theorem typeExpr?_object {members : List (String × Json)} (hnodup : (members.map (·.1)).Nodup)
    (fuel : Nat) :
    typeExpr? (fuel + 1) (.object members) =
      ((do
          let name ← required string? (Json.member? "ref" members)
          let args ← withDefault [] (list? (typeExpr? fuel)) (Json.member? "args" members)
          pure (.generic name args))
        <|> required (fun j => (typeExpr? fuel j).map .array) (Json.member? "array" members)
        <|> required (fun j => (list? (typeExpr? fuel) j).map .union) (Json.member? "union" members)
        <|> required (fun j => (list? (typeExpr? fuel) j).map .intersection)
          (Json.member? "intersection" members)
        <|> required (fun j => (Literal.ofJson? j).map .literal) (Json.member? "literal" members)
        <|> required (object? (typeExpr? fuel)) (Json.member? "object" members)) := by
  rw [typeExpr?]
  simp only [generic?, single?, field?_eq hnodup]
  rfl

theorem absent {members : List (String × Json)} {fields : List (String × (Option Json → Prop))}
    (hknown : ∀ name ∈ members.map (·.1), name ∈ fields.map (·.1)) (name : String)
    (h : name ∉ fields.map (·.1)) : Json.member? name members = none :=
  member?_eq_none fun hmem => h (hknown name hmem)

theorem depth_lt_of_member? {name : String} {members : List (String × Json)} {j : Json}
    (h : Json.member? name members = some j) : j.depth < (Json.object members).depth :=
  depth_lt_of_mem (Json.mem_of_member? h)

theorem fields?_object {members : List (String × Json)} (hnodup : (members.map (·.1)).Nodup)
    (names : List String) :
    fields? names (.object members) = some (names.map (Json.member? · members)) :=
  objectFields?_eq hnodup names

section
variable {type? : Json → Option TypeExpr} {j : Json}

/-! Members and signatures are read with a reader of types that is right for what is nested less
deeply; the recursion below supplies it. -/

theorem nullable_of_writtenOption {type : Option TypeExpr} (h : TypeExpr.WrittenOption type j)
    (htype : ∀ e, type = some e → e.Written j → type? j = some e) : nullable type? j = some type := by
  cases type with
  | none =>
    obtain rfl := h
    rfl
  | some e =>
    rw [nullable_of_ne (ne_null_of_written h), htype e rfl h]
    rfl

theorem member?_of_writtenMember {m : MemberDecl TypeExpr} (h : TypeExpr.WrittenMember m j)
    (htype : ∀ e i, m.type = some e → i.depth < j.depth → e.Written i → type? i = some e) :
    member? type? j = some m := by
  obtain ⟨n, optional, method, type⟩ := m
  obtain ⟨members, rfl, hnodup, -, hfields⟩ := h
  simp only [List.forall_mem_cons] at hfields
  obtain ⟨hname, hoptional, hmethod, hfield, -⟩ := hfields
  unfold member?
  rw [fields?_object hnodup]
  simp only [List.map_cons, List.map_nil, Option.bind_eq_bind, Option.bind_some]
  rw [required_of_present hname fun _ _ => string?_of_text,
    withDefault_of_defaulted (a := optional) hoptional id fun _ _ => bool?_of_flag,
    withDefault_of_defaulted (a := method) hmethod id fun _ _ => bool?_of_flag,
    withDefault_of_defaulted (a := type) hfield id fun i hi hw =>
      nullable_of_writtenOption hw fun e he => htype e i he (depth_lt_of_member? hi)]
  rfl

theorem index?_of_writtenIndex {x : IndexDecl TypeExpr} (h : TypeExpr.WrittenIndex x j)
    (hkey : ∀ i, i.depth < j.depth → x.key.Written i → type? i = some x.key)
    (hvalue : ∀ i, i.depth < j.depth → x.value.Written i → type? i = some x.value) :
    index? type? j = some x := by
  obtain ⟨key, value⟩ := x
  obtain ⟨members, rfl, hnodup, -, hfields⟩ := h
  simp only [List.forall_mem_cons] at hfields
  obtain ⟨hkeyed, hvalued, -⟩ := hfields
  unfold index?
  rw [fields?_object hnodup]
  simp only [List.map_cons, List.map_nil, Option.bind_eq_bind, Option.bind_some]
  rw [required_of_present hkeyed fun i hi => hkey i (depth_lt_of_member? hi),
    required_of_present hvalued fun i hi => hvalue i (depth_lt_of_member? hi)]
  rfl

end

mutual

/-- **A type expression is read as it was written**, on any fuel that its depth leaves. -/
theorem typeExpr?_of_written : ∀ (e : TypeExpr) {j : Json} {fuel : Nat}, e.Written j →
    j.depth < fuel → typeExpr? fuel j = some e
  | _, _, 0, _, hfuel => absurd hfuel (Nat.not_lt_zero _)
  | .name n, _, fuel + 1, h, _ => by
    obtain rfl := h
    rfl
  | .generic n args, _, fuel + 1, h, hfuel => by
    obtain ⟨members, rfl, hnodup, -, hfields⟩ := h
    simp only [List.forall_mem_cons] at hfields
    obtain ⟨hname, hargs, -⟩ := hfields
    rw [typeExpr?_object hnodup, required_of_present hname fun _ _ => string?_of_text,
      withDefault_of_defaulted (a := args) hargs id fun j hj hwritten =>
        list?_of_writtenAll args hwritten ((depth_lt_of_member? hj).trans_le (by omega))]
    rfl
  | .array e, _, fuel + 1, h, hfuel => by
    obtain ⟨members, rfl, hnodup, hknown, hfields⟩ := h
    have hitem := hfields _ List.mem_cons_self
    rw [typeExpr?_object hnodup, absent hknown "ref" (by simp),
      required_of_present hitem fun j hj hwritten => ?_]
    · rfl
    · have hdepth := depth_lt_of_member? hj
      rw [typeExpr?_of_written e hwritten (by omega)]
      rfl
  | .union branches, _, fuel + 1, h, hfuel => by
    obtain ⟨members, rfl, hnodup, hknown, hfields⟩ := h
    have hbranches := hfields _ List.mem_cons_self
    rw [typeExpr?_object hnodup, absent hknown "ref" (by simp),
      absent hknown "array" (by simp),
      required_of_present hbranches fun j hj hwritten => ?_]
    · rfl
    · have hdepth := depth_lt_of_member? hj
      rw [list?_of_writtenAll branches hwritten (by omega)]
      rfl
  | .intersection parts, _, fuel + 1, h, hfuel => by
    obtain ⟨members, rfl, hnodup, hknown, hfields⟩ := h
    have hparts := hfields _ List.mem_cons_self
    rw [typeExpr?_object hnodup, absent hknown "ref" (by simp),
      absent hknown "array" (by simp), absent hknown "union" (by simp),
      required_of_present hparts fun j hj hwritten => ?_]
    · rfl
    · have hdepth := depth_lt_of_member? hj
      rw [list?_of_writtenAll parts hwritten (by omega)]
      rfl
  | .literal l, _, fuel + 1, h, _ => by
    obtain ⟨members, rfl, hnodup, hknown, hfields⟩ := h
    have hliteral := hfields _ List.mem_cons_self
    rw [typeExpr?_object hnodup, absent hknown "ref" (by simp),
      absent hknown "array" (by simp), absent hknown "union" (by simp),
      absent hknown "intersection" (by simp),
      required_of_present hliteral fun j _ hwritten => ?_]
    · rfl
    · rw [ofJson?_of_written hwritten]
      rfl
  | .object ms xs, _, fuel + 1, h, hfuel => by
    obtain ⟨members, rfl, hnodup, hknown, hfields⟩ := h
    have hobject := hfields _ List.mem_cons_self
    rw [typeExpr?_object hnodup, absent hknown "ref" (by simp),
      absent hknown "array" (by simp), absent hknown "union" (by simp),
      absent hknown "intersection" (by simp), absent hknown "literal" (by simp),
      required_of_present hobject fun j hj hwritten => ?_]
    · rfl
    · have hdepth := depth_lt_of_member? hj
      obtain ⟨fields, rfl, hnames, -, hparts⟩ := hwritten
      simp only [List.forall_mem_cons] at hparts
      obtain ⟨hms, hxs, -⟩ := hparts
      unfold object?
      rw [fields?_object hnames]
      simp only [List.map_cons, List.map_nil, Option.bind_eq_bind, Option.bind_some]
      rw [withDefault_of_defaulted (a := ms) hms id fun i hi hw =>
          list?_of_writtenMembers ms hw ((depth_lt_of_member? hi).trans_le (by omega)),
        withDefault_of_defaulted (a := xs) hxs id fun i hi hw =>
          list?_of_writtenIndexes xs hw ((depth_lt_of_member? hi).trans_le (by omega))]
      rfl

theorem list?_of_writtenAll : ∀ (es : List TypeExpr) {j : Json} {fuel : Nat},
    (∃ js, j = .array js ∧ TypeExpr.WrittenAll es js) → j.depth < fuel + 1 →
      list? (typeExpr? fuel) j = some es
  | [], _, _, h, _ => by
    obtain ⟨js, rfl, rfl⟩ := h
    rfl
  | e :: es, _, fuel, h, hfuel => by
    obtain ⟨-, rfl, j, js, rfl, hj, hjs⟩ := h
    have hdepth := depth_cons_lt_iff.1 hfuel
    exact list?_cons (typeExpr?_of_written e hj hdepth.1)
      (list?_of_writtenAll es ⟨js, rfl, hjs⟩ hdepth.2)

theorem member?_of_written : ∀ (m : MemberDecl TypeExpr) {j : Json} {fuel : Nat},
    TypeExpr.WrittenMember m j → j.depth < fuel → member? (typeExpr? fuel) j = some m
  | ⟨n, optional, method, none⟩, _, _, h, _ =>
    member?_of_writtenMember h fun _ _ htype => nomatch htype
  | ⟨n, optional, method, some e⟩, _, _, h, hfuel =>
    member?_of_writtenMember h fun e' i htype hdepth hw => by
      obtain rfl : e = e' := Option.some.inj htype
      exact typeExpr?_of_written e hw (hdepth.trans hfuel)

theorem list?_of_writtenMembers : ∀ (ms : List (MemberDecl TypeExpr)) {j : Json} {fuel : Nat},
    (∃ js, j = .array js ∧ TypeExpr.WrittenMembers ms js) → j.depth < fuel + 1 →
      list? (member? (typeExpr? fuel)) j = some ms
  | [], _, _, h, _ => by
    obtain ⟨js, rfl, rfl⟩ := h
    rfl
  | m :: ms, _, fuel, h, hfuel => by
    obtain ⟨-, rfl, j, js, rfl, hj, hjs⟩ := h
    have hdepth := depth_cons_lt_iff.1 hfuel
    exact list?_cons (member?_of_written m hj hdepth.1)
      (list?_of_writtenMembers ms ⟨js, rfl, hjs⟩ hdepth.2)

theorem index?_of_written : ∀ (x : IndexDecl TypeExpr) {j : Json} {fuel : Nat},
    TypeExpr.WrittenIndex x j → j.depth < fuel → index? (typeExpr? fuel) j = some x
  | ⟨key, value⟩, _, _, h, hfuel =>
    index?_of_writtenIndex h
      (fun _ hdepth hw => typeExpr?_of_written key hw (hdepth.trans hfuel))
      (fun _ hdepth hw => typeExpr?_of_written value hw (hdepth.trans hfuel))

theorem list?_of_writtenIndexes : ∀ (xs : List (IndexDecl TypeExpr)) {j : Json} {fuel : Nat},
    (∃ js, j = .array js ∧ TypeExpr.WrittenIndexes xs js) → j.depth < fuel + 1 →
      list? (index? (typeExpr? fuel)) j = some xs
  | [], _, _, h, _ => by
    obtain ⟨js, rfl, rfl⟩ := h
    rfl
  | x :: xs, _, fuel, h, hfuel => by
    obtain ⟨-, rfl, j, js, rfl, hj, hjs⟩ := h
    have hdepth := depth_cons_lt_iff.1 hfuel
    exact list?_cons (index?_of_written x hj hdepth.1)
      (list?_of_writtenIndexes xs ⟨js, rfl, hjs⟩ hdepth.2)

end

theorem type?_of_written {e : TypeExpr} {j : Json} (h : e.Written j) : type? j = some e :=
  typeExpr?_of_written e h (Nat.lt_succ_self _)

/-! ## Declarations -/

theorem member?_type? {m : MemberDecl TypeExpr} {j : Json} (h : TypeExpr.WrittenMember m j) :
    member? type? j = some m :=
  member?_of_writtenMember h fun _ _ _ _ => type?_of_written

theorem index?_type? {x : IndexDecl TypeExpr} {j : Json} (h : TypeExpr.WrittenIndex x j) :
    index? type? j = some x :=
  index?_of_writtenIndex h (fun _ _ => type?_of_written) (fun _ _ => type?_of_written)

theorem enumMember?_of_written {m : EnumMember} {j : Json} (h : m.Written j) :
    enumMember? j = some m := by
  obtain ⟨members, rfl, hnodup, -, hfields⟩ := h
  simp only [List.forall_mem_cons] at hfields
  obtain ⟨hname, hvalue, -⟩ := hfields
  unfold enumMember?
  rw [fields?_object hnodup]
  simp only [List.map_cons, List.map_nil, Option.bind_eq_bind, Option.bind_some]
  rw [required_of_present hname fun _ _ => string?_of_text,
    withDefault_of_defaulted (a := m.value) hvalue id fun i _ hw => ?_]
  · rfl
  · cases hm : m.value with
    | none =>
      rw [hm] at hw
      obtain rfl : i = .null := hw
      rfl
    | some l =>
      rw [hm] at hw
      have hread := ofJson?_of_written hw
      have hne : i ≠ .null := by
        rintro rfl
        cases hread
      rw [nullable_of_ne hne, hread]
      rfl

theorem line?_of_written {line : Option Nat} {j : Json} (hline : ∀ n, line = some n → n < twoTo 32)
    (h : Nullable (fun n j => j = .nat n) line j) : line? j = some line := by
  cases line with
  | none =>
    obtain rfl : j = .null := h
    rfl
  | some n =>
    obtain rfl : j = .nat n := h
    show (if 0 ≤ (n : Int) ∧ (n : Int) < twoTo 32 then some (some (n : Int).toNat) else none) = _
    rw [if_pos ⟨Int.natCast_nonneg n, Int.ofNat_lt.2 (hline n rfl)⟩, Int.toNat_natCast]

theorem member?_filter_ne {α : Type} {name tag : String} (h : name ≠ tag)
    (members : List (String × α)) :
    Json.member? name (members.filter (·.1 != tag)) = Json.member? name members := by
  unfold Json.member?
  rw [List.find?_filter]
  congr 2
  funext m
  by_cases hm : m.1 = name
  · simp [hm, h]
  · simp [hm]

section
variable {members : List (String × Json)} {kind : Kind} {tag : String}

theorem declaration?_object (hnodup : (members.map (·.1)).Nodup)
    (htag : Present (Text tag) (Json.member? "kind" members)) (hkind : kind? (.string tag) = some kind) :
    declaration? (.object members) = ofKind? kind (.object (members.filter (·.1 != "kind"))) := by
  obtain ⟨j, hj, rfl⟩ := htag
  unfold declaration?
  simp only [field?_eq hnodup, hj, required, hkind, Option.bind_eq_bind, Option.bind_some]

theorem nodup_filter (hnodup : (members.map (·.1)).Nodup) (tag : String) :
    ((members.filter (·.1 != tag)).map (·.1)).Nodup :=
  hnodup.sublist (List.filter_sublist.map _)

end

/-- **A declaration is read as it was written**, wherever its tag stands. -/
theorem declaration?_of_written {d : Declaration} {j : Json} (hproper : d.Proper)
    (h : d.Written j) : declaration? j = some d := by
  obtain ⟨n, exported, line, typeParams, body⟩ := d
  obtain ⟨hrange, henum⟩ := hproper
  cases body with
  | interface bases ms xs =>
    obtain ⟨members, rfl, hnodup, -, hfields⟩ := h
    simp only [Declaration.commonFields, List.cons_append, List.nil_append,
      List.forall_mem_cons] at hfields
    obtain ⟨hkind, hname, hexported, hline, hparams, hbases, hms, hxs, -⟩ := hfields
    rw [declaration?_object hnodup hkind rfl]
    unfold ofKind?
    dsimp only
    rw [fields?_object (nodup_filter hnodup _)]
    simp (disch := decide) only [List.map_cons, List.map_nil, Option.bind_eq_bind,
      Option.bind_some, member?_filter_ne]
    rw [required_of_present hname fun _ _ => string?_of_text,
      withDefault_of_defaulted (a := exported) hexported id fun _ _ => bool?_of_flag,
      withDefault_of_defaulted (a := line) hline id fun _ _ => line?_of_written hrange,
      withDefault_of_defaulted (a := typeParams) hparams id fun _ _ hw =>
        list?_of_listOf hw fun _ _ _ => string?_of_text,
      withDefault_of_defaulted (a := bases) hbases id fun _ _ hw =>
        list?_of_listOf hw fun _ _ _ => type?_of_written,
      withDefault_of_defaulted (a := ms) hms id fun _ _ hw =>
        list?_of_listOf hw fun _ _ _ => member?_type?,
      withDefault_of_defaulted (a := xs) hxs id fun _ _ hw =>
        list?_of_listOf hw fun _ _ _ => index?_type?]
    rfl
  | typeAlias e =>
    obtain ⟨members, rfl, hnodup, -, hfields⟩ := h
    simp only [Declaration.commonFields, List.cons_append, List.nil_append,
      List.forall_mem_cons] at hfields
    obtain ⟨hkind, hname, hexported, hline, hparams, htype, -⟩ := hfields
    rw [declaration?_object hnodup hkind rfl]
    unfold ofKind?
    dsimp only
    rw [fields?_object (nodup_filter hnodup _)]
    simp (disch := decide) only [List.map_cons, List.map_nil, Option.bind_eq_bind,
      Option.bind_some, member?_filter_ne]
    rw [required_of_present hname fun _ _ => string?_of_text,
      withDefault_of_defaulted (a := exported) hexported id fun _ _ => bool?_of_flag,
      withDefault_of_defaulted (a := line) hline id fun _ _ => line?_of_written hrange,
      withDefault_of_defaulted (a := typeParams) hparams id fun _ _ hw =>
        list?_of_listOf hw fun _ _ _ => string?_of_text,
      required_of_present htype fun _ _ => type?_of_written]
    rfl
  | enum ms =>
    obtain rfl : typeParams = [] := henum ms rfl
    obtain ⟨members, rfl, hnodup, -, hfields⟩ := h
    simp only [Declaration.commonFields, List.cons_append, List.nil_append,
      List.forall_mem_cons] at hfields
    obtain ⟨hkind, hname, hexported, hline, hms, -⟩ := hfields
    rw [declaration?_object hnodup hkind rfl]
    unfold ofKind?
    dsimp only
    rw [fields?_object (nodup_filter hnodup _)]
    simp (disch := decide) only [List.map_cons, List.map_nil, Option.bind_eq_bind,
      Option.bind_some, member?_filter_ne]
    rw [required_of_present hname fun _ _ => string?_of_text,
      withDefault_of_defaulted (a := exported) hexported id fun _ _ => bool?_of_flag,
      withDefault_of_defaulted (a := line) hline id fun _ _ => line?_of_written hrange,
      withDefault_of_defaulted (a := ms) hms id fun _ _ hw =>
        list?_of_listOf hw fun _ _ _ => enumMember?_of_written]
    rfl

theorem unit?_of_written {u : SourceUnit} {j : Json} (hproper : ∀ d ∈ u.declarations, d.Proper)
    (h : u.Written j) : unit? j = some u := by
  obtain ⟨members, rfl, hnodup, -, hfields⟩ := h
  simp only [List.forall_mem_cons] at hfields
  obtain ⟨hfile, hdeclarations, -⟩ := hfields
  unfold unit?
  rw [fields?_object hnodup]
  simp only [List.map_cons, List.map_nil, Option.bind_eq_bind, Option.bind_some]
  rw [required_of_present hfile fun _ _ => string?_of_text,
    withDefault_of_defaulted (a := u.declarations) hdeclarations id fun _ _ hw =>
      list?_of_listOf hw fun d hd _ => declaration?_of_written (hproper d hd)]
  rfl

theorem file?_of_unit {u : SourceUnit} {j : Json} (h : unit? j = some u) (hlist : list? unit? j = none) :
    file? j = some [u] := by
  unfold file?
  rw [hlist, h]
  rfl

theorem file?_eq {units : List SourceUnit} {j : Json}
    (hproper : ∀ u ∈ units, ∀ d ∈ u.declarations, d.Proper) (h : SourceUnit.FileWritten units j) :
    file? j = some units := by
  rcases h with h | ⟨u, rfl, h⟩
  · unfold file?
    rw [list?_of_listOf h fun u hu _ => unit?_of_written (hproper u hu)]
    rfl
  · refine file?_of_unit (unit?_of_written (hproper u List.mem_cons_self) h) ?_
    obtain ⟨members, rfl, -⟩ := h
    rfl

/-- **A file is read as the units that it was written for**: every list of units can be written,
and however it is written, it is those units that are read, from the value as from a document whose
nesting a reader follows. -/
theorem file?_of_fileWritten {units : List SourceUnit}
    (hproper : ∀ u ∈ units, ∀ d ∈ u.declarations, d.Proper) :
    (∃ j, SourceUnit.FileWritten units j) ∧
      ∀ j, SourceUnit.FileWritten units j → file? j = some units ∧
        ∀ path, path.length + j.depth < Decode.depthLimit →
          SourceUnit.decodeFile path (.ofJson j) = .ok units := by
  refine ⟨SourceUnit.exists_fileWritten units, fun j h => ⟨file?_eq hproper h, fun path hdepth => ?_⟩⟩
  unfold SourceUnit.decodeFile
  rw [Decode.tree_ofJson hdepth]
  simp only [bind, Except.bind, file?_eq hproper h]
  rfl

/-- `interface Event<T> { at: "ref" | 4 | { on?: T }; }` and `enum Kind { a }` -/
def eventUnit : SourceUnit where
  file := "event.ts"
  declarations := [
    { name := "Event", exported := true, line := some 3, typeParams := ["T"]
      body := .interface [] [⟨"at", false, false, some (.union [.literal (.str "ref"),
        .object [⟨"on", true, false, some (.name "T")⟩] []])⟩] [] },
    { name := "Kind", exported := false, line := none, typeParams := []
      body := .enum [⟨"a", none⟩] }]

/-- The unit with its members in another order than usual, and with most defaults left out. -/
def eventFile : Json := .object [
  ("declarations", .array [
    .object [("typeParams", .array [.string "T"]), ("line", .number (.int 3)),
      ("members", .array [.object [("type", .object [("union", .array [
        .object [("literal", .string "ref")],
        .object [("object", .object [("members", .array [.object [("optional", .bool true),
          ("type", .string "T"), ("name", .string "on")]])])]])]), ("name", .string "at")]]),
      ("name", .string "Event"), ("kind", .string "interface")],
    .object [("line", .null), ("members", .array [.object [("name", .string "a")]]),
      ("exported", .bool false), ("kind", .string "enum"), ("name", .string "Kind")]]),
  ("file", .string "event.ts")]

theorem eventFile_written : SourceUnit.FileWritten [eventUnit] eventFile := by
  refine .inr ⟨_, rfl, ?_⟩
  simp [-List.mem_map, eventUnit, eventFile, SourceUnit.Written, Record, Present, Defaulted, Text,
    Form.Flag, ListOf, Nullable, Declaration.Written, Declaration.commonFields, TypeExpr.Written,
    TypeExpr.WrittenAll, TypeExpr.WrittenMember, TypeExpr.WrittenMembers, TypeExpr.WrittenIndexes,
    TypeExpr.WrittenOption, EnumMember.Written, Literal.Written, member?_cons, member?_nil, Json.nat,
    Json.int]

theorem eventFile_read :
    (∀ u ∈ [eventUnit], ∀ d ∈ u.declarations, d.Proper) ∧
      SourceUnit.FileWritten [eventUnit] eventFile ∧
      SourceUnit.decodeFile [] (.ofJson eventFile) = .ok [eventUnit] := by
  have hproper : ∀ u ∈ [eventUnit], ∀ d ∈ u.declarations, d.Proper := by
    simp [eventUnit, Declaration.Proper]
  exact ⟨hproper, eventFile_written, ((file?_of_fileWritten hproper).2 _ eventFile_written).2 []
    (by decide)⟩

end DeclarationFormat
end TypedJson
