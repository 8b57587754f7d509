import Mathlib.Data.List.Forall2
import TypedJson.CommandLine.Run
/-!
# Runs of the check

A run of the check loads a schema and documents and then only writes.  Its exit status is
settled by the full reports, and what it writes by those findings of them that are to be
shown (`CommandLine.outcome_run`).

The run is a program over an abstract access to files, so the statements hold for any file
system, and the writes are visible as changes of its state.  Each part of the program has a
lemma that says exactly when it has which outcome; the run is then read as a chain of
equivalences, and no assumption on the success of a write is needed.
-/
namespace TypedJson
namespace CommandLine

variable {σ α β : Type}

/-- The result of a run and the state that it leaves behind. -/
def outcome (run : Run (StateM σ) α) (s : σ) : Except CommandFault α × σ := run.run.run s

theorem outcome_lift (m : StateM σ α) (s : σ) :
    outcome (liftM m) s = (.ok (m.run s).1, (m.run s).2) := rfl

theorem outcome_bind (m : Run (StateM σ) α) (f : α → Run (StateM σ) β) (s : σ) :
    outcome (m >>= f) s = match outcome m s with
      | (.ok a, s') => outcome (f a) s'
      | (.error fault, s') => (.error fault, s') := by
  unfold outcome ExceptT.run StateT.run
  simp only [bind, ExceptT.bind, ExceptT.mk, StateT.bind, ExceptT.bindCont]
  cases m s with
  | mk result s' => cases result <;> rfl

theorem outcome_bind_of_ok {m : Run (StateM σ) α} {a : α} {s s' : σ} (h : outcome m s = (.ok a, s'))
    (f : α → Run (StateM σ) β) : outcome (m >>= f) s = outcome (f a) s' := by
  rw [outcome_bind, h]

section Writing

variable (files : FileAccess (StateM σ))

/-- The directory of the file is made, if the path has one. -/
def DirectoryMade (path : String) (s s' : σ) : Prop :=
  match FilePath.parent? path with
  | none => s' = s
  | some parent => (files.makeDirectories parent).run s = (.ok (), s')

/-- The text arrives: on the standard output, with a line feed behind it, or in a file, with the
standard output left empty. -/
def Delivered (text : String) : Option String → String → σ → σ → Prop
  | none, output, s, s' => output = text ++ "\n" ∧ s' = s
  | some path, output, s, s' => output = "" ∧ ∃ s₁, DirectoryMade files path s s₁ ∧
      (files.write path (Bytes.ofText text)).run s₁ = (.ok (), s')

theorem outcome_write_iff {path : String} {exit : Nat} {text : String} {s s' : σ}
    {result : CommandResult} :
    outcome (do
      match ← liftM (files.write path (Bytes.ofText text)) with
      | .ok () => pure ⟨exit, ""⟩
      | .error fault => throw (.unwritable path fault) : Run (StateM σ) CommandResult) s =
        (.ok result, s') ↔
      (files.write path (Bytes.ofText text)).run s = (.ok (), s') ∧ result = ⟨exit, ""⟩ := by
  rw [outcome_bind, outcome_lift]
  cases (files.write path (Bytes.ofText text)).run s with
  | mk written s'' =>
    cases written with
    | error fault =>
      constructor
      · rintro ⟨⟩
      · rintro ⟨⟨⟩, -⟩
    | ok =>
      constructor
      · rintro ⟨⟩
        exact ⟨rfl, rfl⟩
      · rintro ⟨⟨⟩, rfl⟩
        rfl

/-- **A text is written in full, or the command fails.** -/
theorem outcome_emit_iff {out? : Option String} {exit : Nat} {text : String} {s s' : σ}
    {result : CommandResult} :
    outcome (emit files out? exit text) s = (.ok result, s') ↔
      Delivered files text out? result.output s s' ∧ result.exit = exit := by
  obtain ⟨status, output⟩ := result
  cases out? with
  | none =>
    constructor
    · rintro ⟨⟩
      exact ⟨⟨rfl, rfl⟩, rfl⟩
    · rintro ⟨⟨rfl, rfl⟩, rfl⟩
      rfl
  | some path =>
    unfold emit Delivered DirectoryMade
    dsimp only
    cases FilePath.parent? path with
    | none =>
      refine (outcome_write_iff files).trans ?_
      constructor
      · rintro ⟨hwrite, ⟨⟩⟩
        exact ⟨⟨rfl, s, rfl, hwrite⟩, rfl⟩
      · rintro ⟨⟨rfl, s₁, rfl, hwrite⟩, rfl⟩
        exact ⟨hwrite, rfl⟩
    | some parent =>
      dsimp only
      rw [outcome_bind, outcome_lift]
      cases hmake : (files.makeDirectories parent).run s with
      | mk made s₁ =>
        cases made with
        | error fault =>
          constructor
          · rintro ⟨⟩
          · rintro ⟨⟨-, s₂, hmade, -⟩, -⟩
            cases hmade
        | ok =>
          refine (outcome_write_iff files).trans ?_
          constructor
          · rintro ⟨hwrite, ⟨⟩⟩
            exact ⟨⟨rfl, s₁, rfl, hwrite⟩, rfl⟩
          · rintro ⟨⟨rfl, s₂, ⟨⟩, hwrite⟩, rfl⟩
            exact ⟨hwrite, rfl⟩

end Writing

section Reporting

/-! ## What is reported

The exit status looks at all findings, and the text at those of the least severity or above;
both come from one list of full reports. -/

/-- Some document has an error in its full report. -/
def Fails (schema : Schema) (typeName : String) (documents : List LabelledDocument) : Prop :=
  ∃ d ∈ documents, ∃ f ∈ (schema.validate typeName d.value).findings, f.severity = .error

variable {schema : Schema} {typeName : String} {documents : List LabelledDocument}

theorem hasErrors_iff {r : Report} : r.hasErrors = true ↔ ∃ f ∈ r.findings, f.severity = .error := by
  simp [Report.hasErrors, Finding.isError]

theorem exitStatus_eq_one_iff :
    exitStatus (checkAll schema typeName documents) = 1 ↔ Fails schema typeName documents := by
  have hany : (checkAll schema typeName documents).any (·.report.hasErrors) = true ↔
      Fails schema typeName documents := by
    simp [checkAll, Fails, hasErrors_iff]
  unfold exitStatus
  rw [← hany]
  split <;> simp_all

theorem exitStatus_le_one (reports : List LabelledReport) : exitStatus reports ≤ 1 := by
  unfold exitStatus
  split
  · exact Nat.le_refl 1
  · exact Nat.zero_le 1

/-- The entry of a document: its label, and its findings of the least severity or a higher one in
their order. -/
def IsEntry (schema : Schema) (typeName : String) (least : Severity) (d : LabelledDocument)
    (r : LabelledReport) : Prop :=
  r.source = d.label ∧ r.report.findings =
    (schema.validate typeName d.value).findings.filter fun f => least.rank ≤ f.severity.rank

theorem shown_checkAll (least : Severity) : ∀ documents : List LabelledDocument,
    List.Forall₂ (IsEntry schema typeName least) documents
      (shown least (checkAll schema typeName documents))
  | [] => .nil
  | _ :: documents => .cons ⟨rfl, rfl⟩ (shown_checkAll least documents)

/-- The lines of an entry: one to say that all is well, or one for each finding. -/
def IsBlock (colour : Bool) (r : LabelledReport) (lines : List String) : Prop :=
  r.report.findings = [] ∧ lines = [LabelledReport.okLine colour r.source] ∨
    r.report.findings ≠ [] ∧
      lines = r.report.findings.map (LabelledReport.findingLine colour r.source)

theorem isBlock_lines (colour : Bool) (r : LabelledReport) : IsBlock colour r (r.lines colour) := by
  unfold LabelledReport.lines Report.isEmpty
  by_cases hempty : r.report.findings = []
  · exact .inl ⟨hempty, by rw [hempty]; rfl⟩
  · refine .inr ⟨hempty, if_neg ?_⟩
    rwa [List.isEmpty_iff]

/-- What an entry is as JSON. -/
def IsItem (r : LabelledReport) (j : Json) : Prop :=
  j = .object (("source", .string r.source) ::
    Json.listMember "errors" (r.report.findings.map (·.toJson)))

/-- The text holds the entries in their order. -/
def Spelled (colour : Bool) (reports : List LabelledReport) (text : String) : OutputFormat → Prop
  | .text => ∃ blocks, List.Forall₂ (IsBlock colour) reports blocks ∧
      text = "\n".intercalate blocks.flatten
  | .json => ∃ items, List.Forall₂ IsItem reports items ∧ text = (Json.array items).pretty

theorem spelled_render (colour : Bool) (reports : List LabelledReport) :
    ∀ format : OutputFormat, Spelled colour reports (format.render colour reports) format
  | .text => by
    refine ⟨reports.map (·.lines colour), ?_, rfl⟩
    rw [List.forall₂_map_right_iff, List.forall₂_same]
    exact fun r _ => isBlock_lines colour r
  | .json => by
    refine ⟨reports.map (·.toJson), ?_, rfl⟩
    rw [List.forall₂_map_right_iff, List.forall₂_same]
    exact fun _ _ => rfl

end Reporting

theorem outcome_run (files : FileAccess (StateM σ)) (colour : Bool) {command : ValidateCommand}
    (hruns : command.dryRun = false) {schema : Schema} {documents : List LabelledDocument}
    {s s₁ s₂ : σ} (hschema : outcome (loadSchema files command.source) s = (.ok schema, s₁))
    (hdocuments : outcome (loadDocuments files command) s₁ = (.ok documents, s₂)) :
    outcome (command.run files colour) s =
      outcome (emit files command.out?
        (exitStatus (checkAll schema command.typeName documents))
        (command.format.render (colour && command.out?.isNone)
          (shown command.least (checkAll schema command.typeName documents)))) s₂ := by
  unfold ValidateCommand.run
  rw [hruns]
  exact (outcome_bind_of_ok hschema _).trans (outcome_bind_of_ok hdocuments _)

/-- **The exit status depends on the full reports alone, and what is written on the findings that
are to be shown.** -/
theorem validate_exit_and_report (files : FileAccess (StateM σ)) (colour : Bool)
    {command : ValidateCommand} (hruns : command.dryRun = false) {schema : Schema}
    {documents : List LabelledDocument} {s s₁ s₂ : σ}
    (hschema : outcome (loadSchema files command.source) s = (.ok schema, s₁))
    (hdocuments : outcome (loadDocuments files command) s₁ = (.ok documents, s₂)) :
    ∃ reports text,
      List.Forall₂ (IsEntry schema command.typeName command.least) documents reports ∧
      Spelled (colour && command.out?.isNone) reports text command.format ∧
      ∀ result s', outcome (command.run files colour) s = (.ok result, s') ↔
        Delivered files text command.out? result.output s₂ s' ∧
        result.exit ≤ 1 ∧ (result.exit = 1 ↔ Fails schema command.typeName documents) := by
  refine ⟨_, _, shown_checkAll command.least documents, spelled_render _ _ command.format,
    fun result s' => ?_⟩
  rw [outcome_run files colour hruns hschema hdocuments, outcome_emit_iff, ← exitStatus_eq_one_iff]
  have hbound := exitStatus_le_one (checkAll schema command.typeName documents)
  exact and_congr_right fun _ => by omega

/-- Files by their paths, without directories. -/
def shelf : FileAccess (StateM (List (String × Bytes))) where
  kind? path := do pure (((← get).find? (·.1 == path)).map fun _ => .file)
  names _ := pure []
  read path := do
    match (← get).find? (·.1 == path) with
    | some file => pure (.ok file.2)
    | none => pure (.error .notFound)
  write path bytes := do
    set ((path, bytes) :: (← get).filter (·.1 != path))
    pure (.ok ())
  makeDirectories _ := pure (.ok ())

def ledgerFiles : List (String × Bytes) :=
  [("schema.json", Bytes.ofText
      ("\x7b\"types\":[0],\"nodes\":[\x7b\"name\":\"Entry\",\"displayName\":\"Entry\"," ++
        "\"properties\":[\x7b\"name\":\"sum\",\"type\":1\x7d]\x7d," ++
        "\x7b\"displayName\":\"number\"\x7d]\x7d")),
    ("data.ndjson", Bytes.ofText "\x7b\"sum\":1,\"note\":0\x7d\n\n\x7b\"sum\":\"3\"\x7d\n")]

def ledgerCommand : ValidateCommand where
  source := .prebuilt "schema.json"
  typeName := "Entry"
  inputs := ["data.ndjson"]
  settings := ⟨true, none, none⟩
  least := .error
  format := .text
  out? := none
  dryRun := false

theorem exists_of_isOk {r : Except CommandFault α × σ} (h : r.1.isOk = true) :
    ∃ a, r = (.ok a, r.2) := by
  obtain ⟨result, s⟩ := r
  cases result with
  | error fault => cases h
  | ok a => exact ⟨a, rfl⟩

/-- The first of the two documents has only a warning, which is not shown. -/
theorem ledger_exit_and_report : ∃ schema documents s₁ s₂ result s',
    outcome (loadSchema shelf ledgerCommand.source) ledgerFiles = (.ok schema, s₁) ∧
    outcome (loadDocuments shelf ledgerCommand) s₁ = (.ok documents, s₂) ∧
    outcome (ledgerCommand.run shelf false) ledgerFiles = (.ok result, s') ∧
    result.exit = 1 ∧ Fails schema "Entry" documents ∧
    result.output = "ok data.ndjson:1\nerror data.ndjson:3 [typeMismatch] " ++
      "A number value expected, encountered string: sum\n" := by
  obtain ⟨schema, hschema⟩ :=
    exists_of_isOk (r := outcome (loadSchema shelf ledgerCommand.source) ledgerFiles)
      (by decide +kernel)
  obtain ⟨documents, hdocuments⟩ :=
    exists_of_isOk (r := outcome (loadDocuments shelf ledgerCommand)
      (outcome (loadSchema shelf ledgerCommand.source) ledgerFiles).2) (by decide +kernel)
  obtain ⟨result, hresult⟩ :=
    exists_of_isOk (r := outcome (ledgerCommand.run shelf false) ledgerFiles) (by decide +kernel)
  have hshown : (outcome (ledgerCommand.run shelf false) ledgerFiles).1.toOption.map
      (fun r => (r.exit, r.output)) = some (1, "ok data.ndjson:1\nerror data.ndjson:3 " ++
        "[typeMismatch] A number value expected, encountered string: sum\n") := by
    decide +kernel
  rw [hresult] at hshown
  obtain ⟨hexit, houtput⟩ := Prod.ext_iff.1 (Option.some.inj hshown)
  obtain ⟨_, _, _, _, hrun⟩ := validate_exit_and_report shelf false rfl hschema hdocuments
  obtain ⟨-, -, hfails⟩ := (hrun result _).1 hresult
  exact ⟨schema, documents, _, _, result, _, hschema, hdocuments, hresult, hexit,
    hfails.1 hexit, houtput⟩

end CommandLine
end TypedJson
