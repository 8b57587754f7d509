import TypedJson.Schema.Format
/-!
# Reading records

A record is written with the members that have a value and read with the others at their defaults.
`Decode.Record.Reads` follows the reading of what was written from one field to the next: each
member takes the record from one state to another, and a field that is not written leaves it as it
is (`Reads.option`, `Reads.flag`, `Reads.list`).

Whatever is read, and from whatever document, has the properties that every field preserves when it
is put into the record (`Decode.Record.decode_preserves`).

A decoder of a record goes through the members in the order of the document, looks each name
up in the list of fields, and refuses a field that comes twice.  When a record is read that
was written, the fields come in their own order.  So `Reads` keeps the number of the first
field that may still come, and each lemma moves it past one field.
-/
namespace TypedJson

namespace Decode

open Json

/-- The decoder undoes the writing of the value. -/
def Undoes (decode : Decoder α) (write : α → Json) (a : α) : Prop :=
  ∀ path, decode path (.ofJson (write a)) = .ok a

variable {α β σ : Type} {decode : Decoder β} {write : α → Json} {g : α → β} {path : JsonPath}

theorem items_map : ∀ {as : List α} (i : Nat),
    (∀ a ∈ as, ∀ k, decode (.index k :: path) (.ofJson (write a)) = .ok (g a)) →
    items decode path i (Document.ofJsonItems (as.map write)) = .ok (as.map g)
  | [], _, _ => rfl
  | a :: as, i, h => by
    have hfirst := h a List.mem_cons_self i
    have hothers := items_map (i + 1) fun x hx => h x (List.mem_cons_of_mem a hx)
    show (decode (.index i :: path) (.ofJson (write a)) >>= fun first =>
      items decode path (i + 1) (Document.ofJsonItems (as.map write)) >>= fun others =>
        pure (first :: others)) = _
    rw [hfirst, hothers]
    rfl

theorem listOf_map {as : List α}
    (h : ∀ a ∈ as, ∀ k, decode (.index k :: path) (.ofJson (write a)) = .ok (g a))
    (expected : String) :
    listOf expected decode path (.ofJson (.array (as.map write))) = .ok (as.map g) := by
  show (items decode path 0 (Document.ofJsonItems (as.map write)) >>= fun values =>
    listEnd path .closed >>= fun _ => pure values) = _
  rw [items_map 0 h]
  rfl

theorem listOf_undoes {decode : Decoder α} {as : List α} (h : ∀ a ∈ as, Undoes decode write a)
    (expected : String) (path : JsonPath) :
    listOf expected decode path (.ofJson (.array (as.map write))) = .ok as := by
  have hlist := listOf_map (g := id) (fun a ha k => h a ha (.index k :: path)) expected
  rw [hlist, List.map_id]

namespace Record

variable {r : Record σ}

/-! ## From one field to the next

The fields are given by their numbers in the record.  A writer that leaves out what is at its
default either emits the member or does not, and the same lemma covers both, as the state
reached is the same. -/

/-- Reading the members takes the record from one state to another if the fields from number
`first` on are still to come; it reads the fields of `read`, maybe among others. -/
def Reads (r : Record σ) (path : JsonPath) (first : Nat) (state : σ)
    (members : List (String × Json)) (read : List Nat) (final : σ) : Prop :=
  ∀ seen : List Nat, (∀ i ∈ seen, i < first) →
    ∃ seen', r.members path .closed seen state (Document.ofJsonMembers members) = .ok (seen', final) ∧
      (∀ i ∈ seen, i ∈ seen') ∧ ∀ i ∈ read, i ∈ seen'

variable {path : JsonPath} {i : Nat} {state state' final : σ} {rest : List (String × Json)}
  {read : List Nat} {name : String} {j : Json}

theorem Reads.done : Reads r path i state [] [] state :=
  fun seen _ => ⟨seen, rfl, fun _ h => h, fun _ h => absurd h List.not_mem_nil⟩

/-! A field is read once at most, since the numbers that were seen stay below that of the next
field. -/

theorem Reads.field {β : Type} {decode : Decoder β} {put : β → σ → σ} {v : β}
    (hname : r.fields.idxOf? name = some i)
    (htake : r.take i = fun path d => (decode path d).map put)
    (hread : decode (.name name :: path) (.ofJson j) = .ok v)
    (hrest : Reads r path (i + 1) (put v state) rest read final) :
    Reads r path i state ((name, j) :: rest) (i :: read) final := by
  intro seen hseen
  obtain ⟨seen', hmembers, hkept, hfields⟩ := hrest (i :: seen) fun k hk => by
    rcases List.mem_cons.1 hk with rfl | hk
    · exact Nat.lt_succ_self k
    · exact Nat.lt_succ_of_lt (hseen k hk)
  have hnew : seen.contains i = false := by
    rw [List.contains_eq_mem, decide_eq_false_iff_not]
    exact fun hmem => Nat.lt_irrefl i (hseen i hmem)
  refine ⟨seen', ?_, fun k hk => hkept k (List.mem_cons_of_mem i hk), fun k hk => ?_⟩
  · show r.members path .closed seen state
      ((.ok name, .ofJson j) :: Document.ofJsonMembers rest) = _
    rw [members, hname]
    dsimp only
    rw [hnew, if_neg (by decide), htake]
    dsimp only
    rw [hread]
    exact hmembers
  · rcases List.mem_cons.1 hk with rfl | hk
    · exact hkept k List.mem_cons_self
    · exact hfields k hk

theorem Reads.skip (hrest : Reads r path (i + 1) state rest read final) :
    Reads r path i state rest read final :=
  fun seen hseen => hrest seen fun k hk => Nat.lt_succ_of_lt (hseen k hk)

theorem Reads.forget (h : Reads r path i state rest (k :: read) final) :
    Reads r path i state rest read final := by
  intro seen hseen
  obtain ⟨seen', hmembers, hkept, hfields⟩ := h seen hseen
  exact ⟨seen', hmembers, hkept, fun i hi => hfields i (List.mem_cons_of_mem k hi)⟩

/-! What may be left out is one of these: an option, a flag, a list.  If it is left out, the
record starts with what it would be read as (`hnone`, `hclear`, `hempty`). -/

theorem Reads.member {β : Type} {decode : Decoder β} {put : β → σ → σ} {v : β}
    {member : Option Json} (hname : r.fields.idxOf? name = some i)
    (htake : r.take i = fun path d => (decode path d).map put)
    (hread : ∀ j, member = some j → decode (.name name :: path) (.ofJson j) = .ok v)
    (hnone : member = none → put v state = state)
    (hrest : Reads r path (i + 1) (put v state) rest read final) :
    Reads r path i state (optionalMember name member ++ rest) read final := by
  cases member with
  | none => exact .skip (hnone rfl ▸ hrest)
  | some j => exact .forget (.field hname htake (hread j rfl) hrest)

theorem Reads.option {β : Type} {decode : Decoder β} {put : Option β → σ → σ} {value : Option β}
    {write : β → Json} (hname : r.fields.idxOf? name = some i)
    (htake : r.take i = fun path d => (Decode.optional decode path d).map put)
    (hread : ∀ v, value = some v →
      Decode.optional decode (.name name :: path) (.ofJson (write v)) = .ok v)
    (hnone : put none state = state)
    (hrest : Reads r path (i + 1) (put value state) rest read final) :
    Reads r path i state (optionalMember name (value.map write) ++ rest) read final := by
  refine .member hname htake (fun j hj => ?_) (fun h => ?_) hrest
  · obtain ⟨v, rfl, rfl⟩ := Option.map_eq_some_iff.1 hj
    exact hread v rfl
  · rw [Option.map_eq_none_iff.1 h]
    exact hnone

theorem Reads.flag {put : Bool → σ → σ} {value : Bool} (hname : r.fields.idxOf? name = some i)
    (htake : r.take i = fun path d => (Decode.bool path d).map put)
    (hclear : put false state = state)
    (hrest : Reads r path (i + 1) (put value state) rest read final) :
    Reads r path i state (flagMember name value ++ rest) read final := by
  cases value with
  | false => exact .skip (hclear ▸ hrest)
  | true => exact .forget (.field hname htake rfl hrest)

theorem Reads.list {β : Type} {decode : Decoder β} {put : β → σ → σ} {v : β} {items : List Json}
    (hname : r.fields.idxOf? name = some i)
    (htake : r.take i = fun path d => (decode path d).map put)
    (hread : decode (.name name :: path) (.ofJson (.array items)) = .ok v)
    (hempty : items = [] → put v state = state)
    (hrest : Reads r path (i + 1) (put v state) rest read final) :
    Reads r path i state (listMember name items ++ rest) read final := by
  cases items with
  | nil => exact .skip (hempty rfl ▸ hrest)
  | cons j items => exact .forget (.field hname htake hread hrest)

theorem decode_of_reads {required : List Nat} {ms : List (String × Json)}
    (h : Reads r path 0 state ms read final) (hrequired : ∀ i ∈ required, i ∈ read) :
    r.decode required state path (.ofJson (.object ms)) = .ok final := by
  obtain ⟨seen, hmembers, -, hread⟩ := h [] fun _ h => absurd h List.not_mem_nil
  have hfound : required.find? (!seen.contains ·) = none := by
    rw [List.find?_eq_none]
    intro i hi
    have hmem := hread i (hrequired i hi)
    simpa using hmem
  unfold Document.ofJson decode
  dsimp only
  rw [hmembers]
  dsimp only [bind, Except.bind]
  rw [hfound]
  rfl

end Record

/-! ## What is read from any document

This half is about documents that nobody wrote: whatever they hold, a field puts in what its
decoder accepts.  It is how bounds on numbers in a loaded file are shown. -/

variable {α β σ : Type} {path : JsonPath} {d : Document}

theorem map_eq_ok {x : Except DecodeError α} {f : α → β} {b : β} (h : x.map f = .ok b) :
    ∃ a, x = .ok a ∧ f a = b := by
  cases x with
  | error e => cases h
  | ok a =>
    cases h
    exact ⟨a, rfl, rfl⟩

theorem lt_of_word32 {n : Nat} (h : word32 path d = .ok n) : n < twoTo 32 := by
  unfold word32 at h
  split at h
  · rename_i i
    split at h
    · rename_i hrange
      cases h
      have hlt : ((i.toNat : Nat) : Int) < twoTo 32 := by
        rw [Int.toNat_of_nonneg hrange.1]
        exact hrange.2
      exact_mod_cast hlt
    · cases h
  · unfold wrongType at h
    split at h <;> cases h

theorem forall_items {decode : Decoder α} {P : α → Prop}
    (hP : ∀ {path d a}, decode path d = .ok a → P a) :
    ∀ {ds : List Document} {i : Nat} {as : List α}, items decode path i ds = .ok as → ∀ a ∈ as, P a
  | [], _, _, h => by
    cases h
    exact fun a ha => absurd ha List.not_mem_nil
  | d :: ds, i, as, h => by
    have h : (decode (.index i :: path) d >>= fun first =>
      items decode path (i + 1) ds >>= fun others => pure (first :: others)) = .ok as := h
    cases hfirst : decode (.index i :: path) d with
    | error e =>
      rw [hfirst] at h
      cases h
    | ok first =>
      rw [hfirst] at h
      cases hothers : items decode path (i + 1) ds with
      | error e =>
        rw [hothers] at h
        cases h
      | ok others =>
        rw [hothers] at h
        cases h
        intro a ha
        rcases List.mem_cons.1 ha with rfl | ha
        · exact hP hfirst
        · exact forall_items hP hothers a ha

theorem forall_listOf {decode : Decoder α} {P : α → Prop}
    (hP : ∀ {path d a}, decode path d = .ok a → P a) {expected : String} {as : List α}
    (h : listOf expected decode path d = .ok as) : ∀ a ∈ as, P a := by
  unfold listOf at h
  split at h
  · rename_i ds stop
    cases hitems : items decode path 0 ds with
    | error e =>
      rw [hitems] at h
      cases h
    | ok values =>
      rw [hitems] at h
      cases hend : listEnd path stop with
      | error e =>
        have h : (listEnd path stop >>= fun _ => pure values) = .ok as := h
        rw [hend] at h
        cases h
      | ok u =>
        have h : (listEnd path stop >>= fun _ => pure values) = .ok as := h
        rw [hend] at h
        cases h
        exact forall_items hP hitems
  · unfold wrongType at h
    split at h <;> cases h

theorem forall_optional {decode : Decoder α} {P : α → Prop}
    (hP : ∀ {path d a}, decode path d = .ok a → P a) {o : Option α}
    (h : optional decode path d = .ok o) : ∀ a, o = some a → P a := by
  unfold optional at h
  split at h
  · cases h
    rintro a ⟨⟩
  · obtain ⟨a, ha, rfl⟩ := map_eq_ok h
    rintro b ⟨⟩
    exact hP ha

namespace Record

variable {r : Record σ} {P : σ → Prop}

theorem members_preserves
    (htake : ∀ {i path d put}, r.take i path d = .ok put → ∀ s, P s → P (put s)) {stop : ObjectEnd} :
    ∀ {ms : List (MemberName × Document)} {seen seen' : List Nat} {state final : σ},
      r.members path stop seen state ms = .ok (seen', final) → P state → P final
  | [], seen, seen', state, final, h, hP => by
    unfold members at h
    split at h
    · cases h
    · split at h <;> cases h
    · cases h
      exact hP
  | (.error fault, _) :: _, _, _, _, _, h, _ => by
    unfold members at h
    cases h
  | (.ok name, d) :: rest, seen, seen', state, final, h, hP => by
    unfold members at h
    split at h
    · split at h
      · cases h
      · exact members_preserves htake h hP
    · split at h
      · cases h
      · split at h
        · cases h
        · rename_i hput
          exact members_preserves htake h (htake hput state hP)

theorem elements_preserves
    (htake : ∀ {i path d put}, r.take i path d = .ok put → ∀ s, P s → P (put s)) {stop : ListEnd} :
    ∀ {ds : List Document} {i : Nat} {seen : List Nat} {state final : σ},
      r.elements path stop i state ds = .ok (seen, final) → P state → P final
  | [], _, _, _, _, h, hP => by
    unfold elements at h
    split at h
    all_goals
      split at h
      · cases h
      · cases h
        exact hP
  | d :: ds, i, seen, state, final, h, hP => by
    unfold elements at h
    split at h
    · split at h
      · cases h
      · rename_i hput
        exact elements_preserves htake h (htake hput state hP)
    · cases h

/-- **What every field preserves holds of a record that was read**, from an object or a list. -/
theorem decode_preserves
    (htake : ∀ {i path d put}, r.take i path d = .ok put → ∀ s, P s → P (put s))
    {required : List Nat} {start final : σ} (hstart : P start)
    (h : r.decode required start path d = .ok final) : P final := by
  unfold decode at h
  split at h
  · rename_i ms stop
    cases hms : r.members path stop [] start ms with
    | error e =>
      rw [hms] at h
      cases h
    | ok result =>
      obtain ⟨seen, state⟩ := result
      rw [hms] at h
      dsimp only [bind, Except.bind] at h
      split at h
      · cases h
      · cases h
        exact members_preserves htake hms hstart
  · rename_i ds stop
    cases hds : r.elements path stop 0 start ds with
    | error e =>
      rw [hds] at h
      cases h
    | ok result =>
      obtain ⟨seen, state⟩ := result
      rw [hds] at h
      dsimp only [bind, Except.bind] at h
      split at h
      · cases h
      · cases h
        exact elements_preserves htake hds hstart
  · unfold wrongType at h
    split at h <;> cases h

end Record
end Decode

end TypedJson
