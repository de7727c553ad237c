import Futur3.Execution.PaperLedger
import Futur3.Prelude.OperationRun

/-! # The paper ledger over any run of calls

A row reads back as the session it was written from, and a file of rows as their
sessions. So a run of `record` calls on one file is the run of an append-only list
of sessions: the accepted ones, in order of strictly increasing dates, each with the
sum of the results so far.
-/

namespace Futur3.Execution

open Data Prelude Method

/-! ## Dates read back -/

theorem all_isDigit_zeroPadded (width n : ℕ) : (zeroPadded width n).all Char.isDigit := by
  rw [List.all_eq_true]
  exact fun c hc => isDigit_of_mem_zeroPadded hc

theorem isoDate?_isoformatChars (d : Date) : PaperSession.isoDate? d.isoformatChars = some d := by
  obtain ⟨hLength, hFirst, hSecond, hYear, hMonth, hDay⟩ := isoformatChars_parts d
  unfold PaperSession.isoDate?
  simp only [hLength, hFirst, hSecond, hYear, hMonth, hDay, ofDigitChars_zeroPadded,
    all_isDigit_zeroPadded, and_self, if_true]
  rw [dif_pos ⟨⟨d.year_pos, d.year_le⟩, ⟨d.month_pos, d.month_le⟩, d.day_pos, d.day_le⟩]
  rfl

/-! ## Rows read back -/

namespace PaperSession

def Writable (s : PaperSession) : Prop :=
  (Nat.toDigits 10 s.contracts.natAbs).length ≤ UnicodeData.maxStrDigits

def row (s : PaperSession) : List Char := JsonText.object s.toJson

theorem dumps_eq (s : PaperSession) :
    (s.Writable ∧ s.dumps = .ok s.row) ∨ (¬s.Writable ∧ s.dumps = .error .valueError) := by
  unfold dumps Writable
  split_ifs with h
  · exact Or.inl ⟨h, rfl⟩
  · exact Or.inr ⟨h, rfl⟩

def priceJson (price : Option Decimal) : Json :=
  match price with
  | none => .null
  | some price => .str price.strChars

/-- The members of a row with their values and the texts of these. -/
def members (s : PaperSession) : List (String × Json × List Char) :=
  [("schema", .str schema, JsonText.quote schema),
    ("session_date", .str s.sessionDate.isoformatChars, JsonText.quote s.sessionDate.isoformatChars),
    ("qualified", .bool s.qualified, JsonText.boolText s.qualified),
    ("contracts", .int s.contracts, JsonText.intText s.contracts),
    ("entry_price", priceJson s.entryPrice, priceText s.entryPrice),
    ("exit_price", priceJson s.exitPrice, priceText s.exitPrice),
    ("session_pnl", .str s.sessionPnl.strChars, JsonText.quote s.sessionPnl.strChars),
    ("cost", .str s.cost.strChars, JsonText.quote s.cost.strChars),
    ("cumulative_pnl", .str s.cumulativePnl.strChars, JsonText.quote s.cumulativePnl.strChars)]

theorem reads_price (price : Option Decimal) : JsonReader.Reads (priceJson price) (priceText price) := by
  cases price with
  | none => exact JsonReader.reads_null
  | some price => exact JsonReader.reads_quote price.strChars

theorem reads_members {s : PaperSession} (h : s.Writable) :
    ∀ m ∈ s.members, JsonReader.Reads m.2.1 m.2.2 := by
  simp only [members, List.forall_mem_cons]
  exact ⟨JsonReader.reads_quote _, JsonReader.reads_quote _, JsonReader.reads_boolText _,
    JsonReader.reads_intText h, reads_price _, reads_price _, JsonReader.reads_quote _,
    JsonReader.reads_quote _, JsonReader.reads_quote _, fun _ h => absurd h List.not_mem_nil⟩

/-- What `json.loads` returns for the row. -/
def decoded (s : PaperSession) : Json := .object (s.members.map fun m => (m.1.toList, m.2.1))

theorem toJson_eq (s : PaperSession) : s.toJson = s.members.map fun m => (m.1, m.2.2) := rfl

theorem loads_row {s : PaperSession} (h : s.Writable) : JsonReader.loads s.row = some s.decoded := by
  rw [row, toJson_eq, JsonReader.loads_object (reads_members h), decoded]

variable (builtins : Builtins)

theorem decimalOf_strChars (d : Decimal) : decimalOf builtins d.strChars = .ok d := by
  rw [decimalOf, Decimal.ofChars?_strChars]

theorem priceOf_priceJson (price : Option Decimal) :
    priceOf builtins (priceJson price) = .ok price := by
  cases price with
  | none => rfl
  | some price =>
    rw [priceJson, priceOf, str, decimalOf_strChars]
    · rfl
    · exact fun h => by cases h

theorem item_object (members : List (String × Json × List Char)) (key : String) :
    item (.object (members.map fun m => (m.1.toList, m.2.1))) key =
      match members.reverse.find? fun m => m.1 = key with
      | some m => .ok m.2.1
      | none => .error (.keyError key) := by
  rw [item, ← List.map_reverse, List.find?_map]
  simp only [Function.comp_def, String.toList_inj]
  cases members.reverse.find? fun m => m.1 = key <;> rfl

theorem item_decoded (s : PaperSession) :
    item s.decoded "session_date" = .ok (.str s.sessionDate.isoformatChars) ∧
      item s.decoded "qualified" = .ok (.bool s.qualified) ∧
      item s.decoded "contracts" = .ok (.int s.contracts) ∧
      item s.decoded "entry_price" = .ok (priceJson s.entryPrice) ∧
      item s.decoded "exit_price" = .ok (priceJson s.exitPrice) ∧
      item s.decoded "session_pnl" = .ok (.str s.sessionPnl.strChars) ∧
      item s.decoded "cost" = .ok (.str s.cost.strChars) ∧
      item s.decoded "cumulative_pnl" = .ok (.str s.cumulativePnl.strChars) := by
  simp only [decoded, item_object]
  simp [members]

theorem fromJson_decoded (s : PaperSession) : fromJson builtins s.decoded = .ok s := by
  obtain ⟨hDate, hQualified, hContracts, hEntry, hExit, hPnl, hCost, hTotal⟩ := item_decoded s
  have hDateOf : dateOf builtins s.sessionDate.isoformatChars = .ok s.sessionDate := by
    rw [dateOf, isoDate?_isoformatChars]
  simp only [fromJson, hDate, hQualified, hContracts, hEntry, hExit, hPnl, hCost, hTotal,
    except_ok_bind, str, int, bool, hDateOf, priceOf_priceJson, decimalOf_strChars]
  rfl

theorem printable_price (price : Option Decimal) : ∀ c ∈ priceText price, JsonText.Printable c := by
  cases price with
  | none => simp [priceText, JsonText.Printable]
  | some price => exact JsonText.printable_quote _

theorem printable_row (s : PaperSession) : ∀ c ∈ s.row, JsonText.Printable c := by
  apply JsonText.printable_object
  simp only [toJson, List.forall_mem_cons]
  exact ⟨JsonText.printable_quote _, JsonText.printable_quote _, JsonText.printable_boolText _,
    JsonText.printable_intText _, printable_price _, printable_price _, JsonText.printable_quote _,
    JsonText.printable_quote _, JsonText.printable_quote _, fun _ h => absurd h List.not_mem_nil⟩

theorem isLineBoundary_of_printable {c : Char} (h : JsonText.Printable c) :
    isLineBoundary c = false := by
  obtain ⟨hLow, hHigh⟩ := h
  simp only [isLineBoundary, List.mem_cons, List.not_mem_nil, or_false, decide_eq_false_iff_not]
  omega

theorem strip_row (s : PaperSession) : strip s.row ≠ [] :=
  UnicodeData.dropBoth_ne_nil (by decide) _

theorem rowOf_row {s : PaperSession} (h : s.Writable) : PaperLedger.rowOf builtins s.row = .ok s := by
  rw [PaperLedger.rowOf, loads_row h]
  exact fromJson_decoded builtins s

end PaperSession

/-! ## The file and the list of its sessions -/

namespace PaperLedger

def contents (file : LedgerFile) : List Char := file.getD []

structure Holds (sessions : List PaperSession) (file : LedgerFile) : Prop where
  contents_eq : contents file = joinLines (sessions.map PaperSession.row)
  writable : ∀ s ∈ sessions, s.Writable

section Calls

variable {builtins : Builtins} {sessions : List PaperSession} {file file' : LedgerFile}

theorem Holds.rows (h : Holds sessions file) :
    (splitlines (contents file)).filter (fun line => strip line ≠ []) =
      sessions.map PaperSession.row := by
  have hLines : ∀ line ∈ sessions.map PaperSession.row, ∀ c ∈ line, isLineBoundary c = false := by
    intro line hLine c hc
    obtain ⟨s, -, rfl⟩ := List.mem_map.mp hLine
    exact PaperSession.isLineBoundary_of_printable (s.printable_row c hc)
  rw [h.contents_eq, splitlines_joinLines hLines, List.filter_eq_self]
  intro line hLine
  obtain ⟨s, -, rfl⟩ := List.mem_map.mp hLine
  simpa using s.strip_row

variable (builtins) in
theorem read_of_holds (h : Holds sessions file) : read builtins file = .ok sessions file := by
  have hRows : (sessions.map PaperSession.row).mapM (rowOf builtins) = .ok sessions := by
    rw [except_mapM_ok_iff, List.map_map]
    apply List.map_congr_left
    intro s hs
    rw [Function.comp_apply, PaperSession.rowOf_row builtins (h.writable s hs)]
  have hLines := h.rows
  rw [read, get_bind]
  cases file with
  | some text =>
    rw [contents, Option.getD_some] at hLines
    simp only [hLines, hRows]
    rfl
  | none =>
    have hNil : sessions = [] := List.map_eq_nil_iff.mp hLines.symm
    rw [hNil]
    rfl

/-- What appending a session does: the row is added, or it cannot be made and nothing is. -/
theorem append_cases (h : Holds sessions file) (session : PaperSession) :
    (session.Writable ∧ ∃ file', append session file = .ok ⟨⟩ file' ∧
        Holds (sessions ++ [session]) file') ∨
      (¬session.Writable ∧ append session file = .error .valueError (some (contents file))) := by
  obtain ⟨hWritable, hDumps⟩ | ⟨hWritable, hDumps⟩ := session.dumps_eq
  · refine Or.inl ⟨hWritable, some (contents file ++ session.row ++ ['\n']), ?_, ?_, ?_⟩
    · rw [append, modify_bind, hDumps]
      rfl
    · rw [List.map_append, List.map_singleton, joinLines_concat, ← h.contents_eq]
      rfl
    · simpa [or_imp, forall_and, hWritable] using h.writable
  · refine Or.inr ⟨hWritable, ?_⟩
    rw [append, modify_bind, hDumps]
    rfl

def IsNext (sessions : List PaperSession) (result : SessionResult) : Prop :=
  ∀ last ∈ sessions.getLast?, last.sessionDate < result.sessionDate

variable (builtins) in
theorem record_guard (h : Holds sessions file) (result : SessionResult) :
    (∃ last ∈ sessions.getLast?, result.sessionDate ≤ last.sessionDate ∧
        record builtins result file =
          .error (nonChronological result.sessionDate last.sessionDate) file) ∨
      (IsNext sessions result ∧
        record builtins result file =
          (append ⟨result, lastTotal sessions + result.sessionPnl⟩ >>= fun _ =>
            pure ⟨result, lastTotal sessions + result.sessionPnl⟩) file) := by
  rw [record, bind_of_ok (read_of_holds builtins h)]
  cases hLast : sessions.getLast? with
  | none => exact Or.inr ⟨by simp [IsNext, hLast], rfl⟩
  | some last =>
    rcases le_or_gt result.sessionDate last.sessionDate with hLate | hEarly
    · refine Or.inl ⟨last, rfl, hLate, ?_⟩
      rw [Option.filter_some_pos (by simpa using hLate)]
      rfl
    · refine Or.inr ⟨by simpa [IsNext, hLast] using hEarly, ?_⟩
      rw [Option.filter_some_neg (by simpa using hEarly)]

variable (builtins) in
/-- What a call does: its date is refused, its row cannot be made, or a session is added. -/
theorem record_cases (h : Holds sessions file) (result : SessionResult) :
    let session : PaperSession := ⟨result, lastTotal sessions + result.sessionPnl⟩
    (¬IsNext sessions result ∧ ∃ e, record builtins result file = .error e file) ∨
      (¬session.Writable ∧ record builtins result file = .error .valueError (some (contents file))) ∨
      (IsNext sessions result ∧ session.Writable ∧ ∃ file',
        record builtins result file = .ok session file' ∧ Holds (sessions ++ [session]) file') := by
  intro session
  obtain ⟨last, hLast, hLate, hError⟩ | ⟨hNext, hAppend⟩ := record_guard builtins h result
  · exact Or.inl ⟨fun hNext => not_lt.mpr hLate (hNext last hLast), _, hError⟩
  · obtain ⟨hWritable, file', hOk, hHolds⟩ | ⟨hWritable, hError⟩ := append_cases h session
    · exact Or.inr (Or.inr ⟨hNext, hWritable, file', hAppend.trans (bind_of_ok hOk), hHolds⟩)
    · exact Or.inr (Or.inl ⟨hWritable, hAppend.trans (bind_of_error hError)⟩)

theorem record_ok (h : Holds sessions file) {result : SessionResult} {session : PaperSession}
    (hRun : record builtins result file = .ok session file') :
    IsNext sessions result ∧ session = ⟨result, lastTotal sessions + result.sessionPnl⟩ ∧
      Holds (sessions ++ [session]) file' := by
  obtain ⟨-, e, hError⟩ | ⟨-, hError⟩ | ⟨hNext, -, added, hOk, hHolds⟩ := record_cases builtins h result
  · cases hError.symm.trans hRun
  · cases hError.symm.trans hRun
  · cases hOk.symm.trans hRun
    exact ⟨hNext, rfl, hHolds⟩

/-- A rejected call adds nothing to the file, and only one that fails to make its row opens it. -/
theorem record_error (h : Holds sessions file) {result : SessionResult} {e : PaperLedgerFailure}
    (hRun : record builtins result file = .error e file') :
    (¬IsNext sessions result ∧ file' = file) ∨ (e = .valueError ∧ file' = some (contents file)) := by
  obtain ⟨hLate, e', hError⟩ | ⟨-, hError⟩ | ⟨-, -, added, hOk, -⟩ := record_cases builtins h result
  · cases hError.symm.trans hRun
    exact Or.inl ⟨hLate, rfl⟩
  · cases hError.symm.trans hRun
    exact Or.inr ⟨rfl, rfl⟩
  · cases hOk.symm.trans hRun

/-- A call is accepted exactly when its date is next and its contracts can be written. -/
theorem record_accepts_iff (h : Holds sessions file) (result : SessionResult) :
    (∃ session file', record builtins result file = .ok session file') ↔
      IsNext sessions result ∧
        PaperSession.Writable ⟨result, lastTotal sessions + result.sessionPnl⟩ := by
  constructor
  · rintro ⟨session, file', hRun⟩
    obtain ⟨hNext, rfl, hHolds⟩ := record_ok h hRun
    exact ⟨hNext, hHolds.writable _ (by simp)⟩
  · rintro ⟨hNext, hWritable⟩
    obtain ⟨hLate, -⟩ | ⟨hLong, -⟩ | ⟨-, -, added, hOk, -⟩ := record_cases builtins h result
    · exact absurd hNext hLate
    · exact absurd hWritable hLong
    · exact ⟨_, _, hOk⟩

end Calls

/-! ## Running totals -/

def RunningTotals (sessions : List PaperSession) : Prop :=
  ∀ before s, before ++ [s] <+: sessions →
    s.cumulativePnl.value = ((before ++ [s]).map fun t => t.sessionPnl.value).sum

theorem lastTotal_value {sessions : List PaperSession} (h : RunningTotals sessions) :
    (lastTotal sessions).value = (sessions.map fun s => s.sessionPnl.value).sum := by
  obtain rfl | ⟨before, s, rfl⟩ := List.eq_nil_or_concat sessions
  · simp [lastTotal, Decimal.value]
  · rw [List.concat_eq_append] at h ⊢
    rw [← h before s List.prefix_rfl]
    simp [lastTotal]

theorem RunningTotals.concat {sessions : List PaperSession} (h : RunningTotals sessions)
    (result : SessionResult) :
    RunningTotals (sessions ++ [⟨result, lastTotal sessions + result.sessionPnl⟩]) := by
  intro before s hPrefix
  obtain hAll | hEarlier := List.prefix_concat_iff.mp hPrefix
  · obtain ⟨rfl, hLast⟩ := List.append_inj' hAll rfl
    cases hLast
    simp [Decimal.add_value, lastTotal_value h]
  · exact h before s hEarlier

def Chronological (sessions : List PaperSession) : Prop :=
  sessions.Pairwise fun a b => a.sessionDate < b.sessionDate

theorem Chronological.concat {sessions : List PaperSession} (h : Chronological sessions)
    {s : PaperSession} (hNext : IsNext sessions s.toSessionResult) :
    Chronological (sessions ++ [s]) := by
  refine List.pairwise_append.mpr ⟨h, List.pairwise_singleton _ _, fun a ha b hb => ?_⟩
  rw [List.mem_singleton.mp hb]
  obtain rfl | ⟨before, last, rfl⟩ := List.eq_nil_or_concat sessions
  · cases ha
  · rw [List.concat_eq_append] at h ha hNext
    have hLast : last.sessionDate < s.sessionDate := hNext last (by simp)
    obtain ha | ha := List.mem_append.mp ha
    · exact ((List.pairwise_append.mp h).2.2 a ha last (List.mem_singleton_self last)).trans hLast
    · rwa [List.mem_singleton.mp ha]

/-! ## Runs -/

def accepted (log : List (SessionResult × Except PaperLedgerFailure PaperSession)) :
    List PaperSession :=
  log.filterMap fun call => call.2.toOption

structure Ledger (log : List (SessionResult × Except PaperLedgerFailure PaperSession))
    (file : LedgerFile) : Prop where
  holds : Holds (accepted log) file
  chronological : Chronological (accepted log)
  totals : RunningTotals (accepted log)
  fields : ∀ call ∈ log, ∀ session, call.2 = .ok session → session.toSessionResult = call.1

section Step

variable {builtins : Builtins} {log : List (SessionResult × Except PaperLedgerFailure PaperSession)}
  {file file' : LedgerFile} {result : SessionResult}

theorem Ledger.accept {session : PaperSession} (h : Ledger log file)
    (hRun : record builtins result file = .ok session file') :
    Ledger (log ++ [(result, .ok session)]) file' := by
  obtain ⟨hNext, rfl, hHolds⟩ := record_ok h.holds hRun
  have hAccepted : accepted (log ++ [(result, .ok ⟨result, lastTotal (accepted log) +
      result.sessionPnl⟩)]) =
        accepted log ++ [⟨result, lastTotal (accepted log) + result.sessionPnl⟩] := by
    simp [accepted, Except.toOption]
  refine ⟨hAccepted ▸ hHolds, hAccepted ▸ h.chronological.concat hNext,
    hAccepted ▸ h.totals.concat result, fun call hCall s hs => ?_⟩
  obtain hCall | hCall := List.mem_append.mp hCall
  · exact h.fields call hCall s hs
  · rw [List.mem_singleton.mp hCall] at hs ⊢
    cases hs
    rfl

theorem Ledger.reject {e : PaperLedgerFailure} (h : Ledger log file)
    (hRun : record builtins result file = .error e file') :
    Ledger (log ++ [(result, .error e)]) file' := by
  have hAccepted : accepted (log ++ [(result, .error e)]) = accepted log := by
    simp [accepted, Except.toOption]
  have hContents : contents file' = contents file := by
    obtain ⟨-, rfl⟩ | ⟨-, rfl⟩ := record_error h.holds hRun
    · rfl
    · rfl
  have hHolds : Holds (accepted log) file' := ⟨hContents.trans h.holds.contents_eq, h.holds.writable⟩
  refine ⟨hAccepted ▸ hHolds, hAccepted ▸ h.chronological, hAccepted ▸ h.totals,
    fun call hCall s hs => ?_⟩
  obtain hCall | hCall := List.mem_append.mp hCall
  · exact h.fields call hCall s hs
  · rw [List.mem_singleton.mp hCall] at hs
    cases hs

theorem Ledger.start : Ledger [] none where
  holds := ⟨rfl, fun _ h => absurd h List.not_mem_nil⟩
  chronological := List.Pairwise.nil
  totals := fun before s h => absurd (List.prefix_nil.mp h) (by simp)
  fields := fun _ h => absurd h List.not_mem_nil

end Step

theorem Ledger.of_transcript (builtins : Builtins) (calls : List SessionResult) :
    Ledger (transcript (record builtins) none calls).1 (transcript (record builtins) none calls).2 :=
  transcript_rule Ledger (fun _ _ _ _ _ h hRun => h.accept hRun)
    (fun _ _ _ _ _ h hRun => h.reject hRun) .start calls

/-- Whatever calls are made on a file that does not exist at first, the file reads as the
accepted sessions in order, with the fields of their calls, strictly increasing dates and the
exact running sums; a rejected call changes no byte of the file. -/
theorem record_appendOnly (builtins : Builtins) (calls : List SessionResult) :
    let run := transcript (record builtins) none calls
    read builtins run.2 = .ok (accepted run.1) run.2 ∧
      (∀ call ∈ run.1, ∀ session, call.2 = .ok session → session.toSessionResult = call.1) ∧
      (accepted run.1).Pairwise (fun a b => a.sessionDate < b.sessionDate) ∧
      (∀ before s, before ++ [s] <+: accepted run.1 →
        s.cumulativePnl.value = ((before ++ [s]).map fun t => t.sessionPnl.value).sum) ∧
      ∀ result e file, record builtins result run.2 = .error e file →
        contents file = contents run.2 ∧ (run.2.isSome → file = run.2) := by
  have hLedger := Ledger.of_transcript builtins calls
  refine ⟨read_of_holds builtins hLedger.holds, hLedger.fields, hLedger.chronological, hLedger.totals,
    fun result e file hRun => ?_⟩
  obtain ⟨-, rfl⟩ | ⟨-, rfl⟩ := record_error hLedger.holds hRun
  · exact ⟨rfl, fun _ => rfl⟩
  · refine ⟨rfl, fun hSome => ?_⟩
    obtain ⟨text, hText⟩ := Option.isSome_iff_exists.mp hSome
    rw [hText]
    rfl

theorem accessors_after (builtins : Builtins) (calls : List SessionResult) :
    let run := transcript (record builtins) none calls
    pnlSeries builtins run.2 = .ok ((accepted run.1).map (·.sessionPnl)) run.2 ∧
      ∃ total, cumulativePnl builtins run.2 = .ok total run.2 ∧
        total.value = ((accepted run.1).map fun s => s.sessionPnl.value).sum := by
  have hLedger := Ledger.of_transcript builtins calls
  have hRead := read_of_holds builtins hLedger.holds
  refine ⟨?_, lastTotal _, ?_, lastTotal_value hLedger.totals⟩
  · rw [pnlSeries, bind_of_ok hRead]
    rfl
  · rw [cumulativePnl, bind_of_ok hRead]
    rfl

end PaperLedger

end Futur3.Execution
