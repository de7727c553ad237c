import Futur3.Prelude.PartitionedStore
import Mathlib.Data.List.Flatten

/-! # What a partitioned store means

Seen from outside a store maps keys to rows. A write gives each key that the
store does not hold the last row of the batch, and never changes another one.
How a batch may be split and in which order the files list their rows follows
from that and from the stability of sorting.
-/

namespace Futur3.Prelude

open Selection

variable {ε α ρ κ π τ : Type} [DecidableEq κ] [DecidableEq π] [LinearOrder τ]

/-! ## Keys to rows -/

namespace Schema

variable (S : Schema ρ κ π τ)

def stored (files : Files π ρ) (k : κ) : Option ρ := lastOf S.key k (rowsAt files (S.part k))

variable {S}

omit [LinearOrder τ] in
theorem lastOf_ofPart (rows : List ρ) (p : π) (k : κ) :
    lastOf S.key k (S.ofPart p rows) = if S.part k = p then lastOf S.key k rows else none := by
  induction rows with
  | nil => simp [ofPart]
  | cons r rest ih =>
    unfold ofPart at ih ⊢
    rw [List.filter_cons, lastOf_cons]
    by_cases hr : S.part (S.key r) = p
    · rw [if_pos (decide_eq_true hr), lastOf_cons, ih]
      by_cases hk : S.key r = k
      · rw [← hk, if_pos hr, if_pos hr]
      · simp [hk]
    · rw [if_neg (by simp [hr]), ih]
      by_cases hk : S.key r = k
      · rw [← hk, if_neg hr, if_neg hr]
      · simp [hk]

namespace Sound

variable {files files' : Files π ρ}

theorem lastOf_rowsAt (h : S.Sound files) (p : π) (k : κ) :
    lastOf S.key k (rowsAt files p) = if S.part k = p then S.stored files k else none := by
  split_ifs with hp
  · rw [← hp]
    rfl
  · rw [lastOf_eq_none_iff]
    intro hMem
    obtain ⟨r, hr, rfl⟩ := List.mem_map.mp hMem
    exact hp (h.placed p r hr)

theorem stored_eq_some_iff (h : S.Sound files) {k : κ} {r : ρ} :
    S.stored files k = some r ↔ r ∈ allRows files ∧ S.key r = k := by
  unfold stored
  rw [lastOf_eq_some_iff (h.nodup _), mem_allRows]
  constructor
  · rintro ⟨hr, hk⟩
    exact ⟨⟨_, hr⟩, hk⟩
  · rintro ⟨⟨p, hr⟩, rfl⟩
    rw [h.placed p r hr]
    exact ⟨hr, rfl⟩

theorem stored_eq_none_iff (h : S.Sound files) {k : κ} :
    S.stored files k = none ↔ k ∉ (allRows files).map S.key := by
  constructor
  · intro hNone hMem
    obtain ⟨r, hr, hk⟩ := List.mem_map.mp hMem
    rw [h.stored_eq_some_iff.mpr ⟨hr, hk⟩] at hNone
    cases hNone
  · intro hMem
    cases hStored : S.stored files k with
    | none => rfl
    | some r =>
      obtain ⟨hr, hk⟩ := h.stored_eq_some_iff.mp hStored
      exact absurd (List.mem_map.mpr ⟨r, hr, hk⟩) hMem

/-- Two stores hold the same rows when they map every key to the same row. -/
theorem perm_iff (h : S.Sound files) (h' : S.Sound files') :
    (∀ p, (rowsAt files p).Perm (rowsAt files' p)) ↔
      ∀ k, S.stored files k = S.stored files' k := by
  constructor
  · intro hPerm k
    exact lastOf_perm (hPerm _) (h.nodup _) k
  · intro hSame p
    apply perm_of_lastOf (h.nodup p) (h'.nodup p)
    intro k
    rw [h.lastOf_rowsAt, h'.lastOf_rowsAt, hSame]

omit [DecidableEq κ] in
theorem nodup_allRows (h : S.Sound files) : ((allRows files).map S.key).Nodup := by
  have hRows : (allRows files).map S.key =
      files.items.flatMap fun file => file.2.map S.key := by
    unfold allRows Dict.values
    rw [List.map_flatten, List.map_map, List.flatMap_def]
    rfl
  have hGet : ∀ file ∈ files.items, rowsAt files file.1 = file.2 := by
    intro file hFile
    rw [rowsAt, (files.mem_items_iff file.1 file.2).mp hFile]
    rfl
  rw [hRows, List.nodup_flatMap]
  constructor
  · intro file hFile
    rw [← hGet file hFile]
    exact h.nodup file.1
  · have hKeys : files.items.Pairwise fun a b => a.1 ≠ b.1 := List.pairwise_map.mp files.nodup_keys
    apply hKeys.imp_of_mem
    intro a b ha hb hne k hk hk'
    obtain ⟨r, hr, rfl⟩ := List.mem_map.mp hk
    obtain ⟨r', hr', hSame⟩ := List.mem_map.mp hk'
    have hPlace := h.placed a.1 r (by rwa [hGet a ha])
    have hPlace' := h.placed b.1 r' (by rwa [hGet b hb])
    apply hne
    rw [← hPlace, ← hPlace', hSame]

omit [DecidableEq κ] in
theorem get?_eq (h : S.Sound files) (h' : S.Sound files') {p : π}
    (hRows : rowsAt files p = rowsAt files' p) : files.get? p = files'.get? p := by
  have hNil := h.nonempty p
  have hNil' := h'.nonempty p
  unfold rowsAt at hRows
  cases hFile : files.get? p <;> cases hFile' : files'.get? p <;> simp_all

end Sound

end Schema

namespace Writer

variable {W : Writer ε α ρ κ π τ} {files files' : Files π ρ}

/-- The write as an update of the map: what is stored stays, a new key takes its last row. -/
theorem Wrote.stored {items : List α} (h : Wrote W items files files') (hSound : W.Sound files) (k : κ) :
    W.stored files' k = (W.stored files k).or (lastOf W.key k (W.rows items)) := by
  unfold Schema.stored
  rw [h.merged, lastOf_merge (hSound.nodup _), Schema.lastOf_ofPart, if_pos rfl]

/-- Records whose keys are all stored change nothing. -/
theorem Wrote.unchanged {items : List α} (h : Wrote W items files files') (hSound : W.Sound files)
    (hKnown : ∀ r ∈ W.rows items, W.key r ∈ (allRows files).map W.key) (p : π) :
    rowsAt files' p = rowsAt files p := by
  have hNone : antiJoin W.key (keepLast W.key (W.ofPart p (W.rows items))) (rowsAt files p) = [] := by
    rw [List.eq_nil_iff_forall_not_mem]
    intro r hr
    obtain ⟨hMem, hNew⟩ := mem_antiJoin.mp hr
    obtain ⟨hRow, hPart⟩ := Schema.mem_ofPart.mp ((keepLast_sublist _).subset hMem)
    obtain ⟨s, hs, hKey⟩ := List.mem_map.mp (hKnown r hRow)
    obtain ⟨q, hq⟩ := mem_allRows.mp hs
    have hPlace := hSound.placed q s hq
    rw [hKey, hPart] at hPlace
    exact hNew (List.mem_map.mpr ⟨s, hPlace ▸ hq, hKey⟩)
  rw [h.merged, merge, hNone, List.append_nil, sortBy_of_pairwise (hSound.sorted p)]

/-! ## Runs of calls -/

/-- What holds after any calls, some of which may have raised. -/
structure Filled (W : Writer ε α ρ κ π τ) (log : List (List α × Except ε WriteCount))
    (files : Files π ρ) : Prop where
  sound : W.Sound files
  submitted : ∀ r ∈ allRows files, ∃ call ∈ log, r ∈ W.rows call.1
  accepted : ∀ call ∈ log, ∀ c, call.2 = .ok c → ∀ a ∈ call.1, W.Accepts a
  kept : ∀ call ∈ log, ∀ c, call.2 = .ok c → ∀ r ∈ W.rows call.1,
    W.key r ∈ (allRows files).map W.key
  counted : ∀ call ∈ log, ∀ c, call.2 = .ok c → c.written + c.deduped = call.1.length
  returned : ∀ call ∈ log, (∀ a ∈ call.1, W.Accepts a) → ∃ c, call.2 = .ok c

theorem Filled.grown {log : List (List α × Except ε WriteCount)} {batch : List α}
    (h : Filled W log files) (hGrown : Grown W (W.rows batch) files files')
    {outcome : Except ε WriteCount}
    (hOutcome : ∀ c, outcome = .ok c → Wrote W batch files files' ∧
      c.written + c.deduped = batch.length)
    (hReturned : (∀ a ∈ batch, W.Accepts a) → ∃ c, outcome = .ok c) :
    Filled W (log ++ [(batch, outcome)]) files' := by
  have hKeys : ∀ k ∈ (allRows files).map W.key, k ∈ (allRows files').map W.key := by
    intro k hk
    obtain ⟨r, hr, rfl⟩ := List.mem_map.mp hk
    obtain ⟨p, hp⟩ := mem_allRows.mp hr
    exact List.mem_map_of_mem (mem_allRows.mpr ⟨p, hGrown.kept p r hp⟩)
  constructor
  · exact hGrown.sound
  · intro r hr
    obtain ⟨p, hp⟩ := mem_allRows.mp hr
    rcases hGrown.added p r hp with hOld | hNew
    · obtain ⟨call, hCall, hRows⟩ := h.submitted r (mem_allRows.mpr ⟨p, hOld⟩)
      exact ⟨call, List.mem_append_left _ hCall, hRows⟩
    · exact ⟨(batch, outcome), by simp, hNew⟩
  · intro call hCall c hc
    rcases List.mem_append.mp hCall with hCall | hCall
    · exact h.accepted call hCall c hc
    · obtain rfl := List.mem_singleton.mp hCall
      exact (hOutcome c hc).1.accepts
  · intro call hCall c hc r hr
    rcases List.mem_append.mp hCall with hCall | hCall
    · exact hKeys _ (h.kept call hCall c hc r hr)
    · obtain rfl := List.mem_singleton.mp hCall
      have hWrote := (hOutcome c hc).1
      -- the key is stored already or takes the last row of the batch
      by_contra hNone
      have hStored := hWrote.stored h.sound (W.key r)
      rw [hWrote.sound.stored_eq_none_iff.mpr hNone] at hStored
      obtain ⟨s, hs⟩ := exists_lastOf (List.mem_map_of_mem hr : W.key r ∈ (W.rows batch).map W.key)
      rw [hs] at hStored
      cases hOld : W.stored files (W.key r) <;> rw [hOld] at hStored <;> cases hStored
  · intro call hCall c hc
    rcases List.mem_append.mp hCall with hCall | hCall
    · exact h.counted call hCall c hc
    · obtain rfl := List.mem_singleton.mp hCall
      exact (hOutcome c hc).2
  · intro call hCall hAccepts
    rcases List.mem_append.mp hCall with hCall | hCall
    · exact h.returned call hCall hAccepts
    · obtain rfl := List.mem_singleton.mp hCall
      exact hReturned hAccepts

theorem filled_transcript (calls : List (List α)) :
    Filled W (transcript W.write (.empty : Files π ρ) calls).1
      (transcript W.write (.empty : Files π ρ) calls).2 := by
  apply transcript_rule (Filled W)
  · intro log s batch c s' h hRun
    have hWrote := write_ok h.sound hRun
    apply h.grown hWrote.1.grown
    · intro c' hc
      cases hc
      exact hWrote
    · exact fun _ => ⟨c, rfl⟩
  · intro log s batch e s' h hRun
    have hGrown := grown_write (W := W) batch h.sound
    rw [Method.after_of_error hRun] at hGrown
    apply h.grown hGrown
    · intro c hc
      cases hc
    · intro hAccepts
      obtain ⟨c, s'', hOk⟩ := write_returns hAccepts s
      rw [hOk] at hRun
      cases hRun
  · exact ⟨Schema.sound_empty, by simp [allRows], by simp, by simp, by simp, by simp⟩

omit [DecidableEq κ] in
/-- The counts of the calls that returned add up to the records they were given. -/
theorem Filled.sum_counts {log : List (List α × Except ε WriteCount)} (h : Filled W log files) :
    ((log.filterMap fun call => call.2.toOption).map fun c => c.written + c.deduped).sum =
      ((log.filter fun call => call.2.toOption.isSome).map fun call => call.1.length).sum := by
  have hCounted := h.counted
  clear h
  induction log with
  | nil => rfl
  | cons call rest ih =>
    have hRest := ih fun call' hMem => hCounted call' (List.mem_cons_of_mem call hMem)
    rw [List.filterMap_cons, List.filter_cons]
    cases hOutcome : call.2 with
    | error e => exact hRest
    | ok c =>
      have hFirst := hCounted call List.mem_cons_self c hOutcome
      have hSome : (Except.ok c : Except ε WriteCount).toOption = some c := rfl
      simp only [hSome, List.map_cons, List.sum_cons, Option.isSome_some, if_true, hRest, hFirst]

/-! ## Splitting a batch -/

/-- One write of both parts agrees with one write after the other exactly when no
new key has different last rows in the two parts. -/
theorem split_iff {xs ys : List α} {whole first second : Files π ρ} (hSound : W.Sound files)
    (hWhole : Wrote W (xs ++ ys) files whole) (hFirst : Wrote W xs files first)
    (hSecond : Wrote W ys first second) :
    (∀ p, (rowsAt whole p).Perm (rowsAt second p)) ↔
      ∀ k ∉ (allRows files).map W.key, k ∈ (W.rows xs).map W.key → k ∈ (W.rows ys).map W.key →
        lastOf W.key k (W.rows xs) = lastOf W.key k (W.rows ys) := by
  rw [hWhole.sound.perm_iff hSecond.sound]
  apply forall_congr'
  intro k
  have hMem : ∀ zs, k ∈ (W.rows zs).map W.key ↔ lastOf W.key k (W.rows zs) ≠ none := by
    intro zs
    rw [Ne, lastOf_eq_none_iff, not_not]
  rw [hWhole.stored hSound, hSecond.stored hFirst.sound, hFirst.stored hSound, rows_append,
    lastOf_append, ← hSound.stored_eq_none_iff, hMem, hMem]
  cases W.stored files k with
  | some r => simp
  | none =>
    cases lastOf W.key k (W.rows xs) <;> cases lastOf W.key k (W.rows ys) <;> simp [eq_comm]

def SameRows (files files' : Files π ρ) : Prop := ∀ p, (rowsAt files p).Perm (rowsAt files' p)

/-- A key that is new, and comes in both parts, has the same last row in both. -/
def SplitsAlike (W : Writer ε α ρ κ π τ) (files : Files π ρ) (xs ys : List α) : Prop :=
  ∀ k ∉ (allRows files).map W.key, k ∈ (W.rows xs).map W.key → k ∈ (W.rows ys).map W.key →
    lastOf W.key k (W.rows xs) = lastOf W.key k (W.rows ys)

theorem wrote_after {items : List α} (hSound : W.Sound files) (h : ∀ a ∈ items, W.Accepts a) :
    Wrote W items files ((W.write items).after files) := by
  obtain ⟨c, files', hRun⟩ := write_returns h files
  rw [Method.after_of_ok hRun]
  exact (write_ok hSound hRun).1

theorem sameRows_split_iff {xs ys : List α} (hSound : W.Sound files)
    (h : ∀ a ∈ xs ++ ys, W.Accepts a) :
    SameRows ((W.write (xs ++ ys)).after files) ((W.write ys).after ((W.write xs).after files)) ↔
      SplitsAlike W files xs ys := by
  have hFirst := wrote_after hSound fun a ha => h a (List.mem_append_left ys ha)
  exact split_iff hSound (wrote_after hSound h) hFirst
    (wrote_after hFirst.sound fun a ha => h a (List.mem_append_right xs ha))

/-! ## The order of the rows in a file -/

/-- Records that arrive with keys that are all new leave the files sorted, whatever
the calls in which they came. -/
theorem rowsAt_transcript {arrived : List ρ} {calls : List (List α)} (hSound : W.Sound files)
    (hRows : ∀ p, rowsAt files p = sortBy W.order (W.ofPart p arrived))
    (hAccepts : ∀ a ∈ calls.flatten, W.Accepts a)
    (hKeys : ((arrived ++ W.rows calls.flatten).map W.key).Nodup) :
    W.Sound (transcript W.write files calls).2 ∧
      ∀ p, rowsAt (transcript W.write files calls).2 p =
        sortBy W.order (W.ofPart p (arrived ++ W.rows calls.flatten)) := by
  induction calls generalizing files arrived with
  | nil =>
    refine ⟨hSound, fun p => ?_⟩
    rw [List.flatten_nil]
    change rowsAt files p = sortBy W.order (W.ofPart p (arrived ++ []))
    rw [List.append_nil, hRows]
  | cons batch rest ih =>
    rw [List.flatten_cons] at hAccepts hKeys ⊢
    rw [rows_append, ← List.append_assoc] at hKeys ⊢
    obtain ⟨c, files', hRun⟩ := write_returns
      (fun a ha => hAccepts a (List.mem_append_left _ ha)) files
    have hWrote := (write_ok hSound hRun).1
    rw [transcript, hRun]
    apply ih hWrote.sound _ (fun a ha => hAccepts a (List.mem_append_right _ ha)) hKeys
    intro p
    rw [hWrote.merged, hRows, merge_sortBy_of_nodup, Schema.ofPart, Schema.ofPart, Schema.ofPart,
      List.filter_append]
    rw [List.map_append] at hKeys
    have hSub := (List.filter_sublist (p := fun r => decide (W.part (W.key r) = p))
      (l := arrived ++ W.rows batch)).map W.key
    rw [List.filter_append] at hSub
    exact (List.nodup_append.mp hKeys).1.sublist hSub

/-- Any two ways of ordering the records and grouping them into calls leave the
same files. -/
def Canonical (W : Writer ε α ρ κ π τ) (items : List α) : Prop :=
  ∀ calls calls' : List (List α), calls.flatten.Perm items → calls'.flatten.Perm items →
    ∀ p, (transcript W.write .empty calls).2.get? p = (transcript W.write .empty calls').2.get? p

omit [DecidableEq κ] [DecidableEq π] [LinearOrder τ] in
theorem rows_perm {xs ys : List α} (h : xs.Perm ys) : (W.rows xs).Perm (W.rows ys) :=
  h.filterMap _

theorem exists_perm_cons_cons {xs : List α} {a b : α} (ha : a ∈ xs) (hb : b ∈ xs) (hne : a ≠ b) :
    ∃ rest, xs.Perm (a :: b :: rest) := by
  obtain ⟨before, after, rfl⟩ := List.append_of_mem ha
  have hMem : b ∈ before ++ after := by
    rcases List.mem_append.mp hb with hb | hb
    · exact List.mem_append_left _ hb
    · rcases List.mem_cons.mp hb with rfl | hb
      · exact absurd rfl hne
      · exact List.mem_append_right _ hb
  obtain ⟨before', after', hSplit⟩ := List.append_of_mem hMem
  refine ⟨before' ++ after', List.perm_middle.trans ?_⟩
  rw [hSplit]
  exact List.perm_middle.cons a

/-- Within a partition the order of two rows tells them apart. -/
def OrderTellsApart (W : Writer ε α ρ κ π τ) (items : List α) : Prop :=
  ∀ r ∈ W.rows items, ∀ s ∈ W.rows items,
    W.part (W.key r) = W.part (W.key s) → W.order r = W.order s → r = s

theorem canonical_iff {items : List α} (hAccepts : ∀ a ∈ items, W.Accepts a)
    (hKeys : ((W.rows items).map W.key).Nodup) :
    Canonical W items ↔ OrderTellsApart W items := by
  have hRun : ∀ calls : List (List α), calls.flatten.Perm items →
      W.Sound (transcript W.write .empty calls).2 ∧
        ∀ p, rowsAt (transcript W.write .empty calls).2 p =
          sortBy W.order (W.ofPart p (W.rows calls.flatten)) := by
    intro calls hPerm
    have hNodup : (([] ++ W.rows calls.flatten).map W.key).Nodup := by
      rw [List.nil_append, ((rows_perm hPerm).map W.key).nodup_iff]
      exact hKeys
    simpa using rowsAt_transcript Schema.sound_empty (fun p => rfl)
      (fun a ha => hAccepts a (hPerm.subset ha)) hNodup
  constructor
  · intro hCanonical r hr s hs hPart hOrder
    by_contra hne
    obtain ⟨a, ha, hEncode⟩ := mem_rows.mp hr
    obtain ⟨b, hb, hEncode'⟩ := mem_rows.mp hs
    have hDistinct : a ≠ b := by
      rintro rfl
      rw [hEncode] at hEncode'
      exact hne (Except.ok.inj hEncode')
    obtain ⟨rest, hPerm⟩ := exists_perm_cons_cons ha hb hDistinct
    -- one call each, with the two records in either order in front
    have hFirst : [a :: b :: rest].flatten.Perm items := by simpa using hPerm.symm
    have hSwapped : [b :: a :: rest].flatten.Perm items := by
      simpa using (hPerm.trans (List.Perm.swap b a rest)).symm
    have hFiles := hCanonical _ _ hFirst hSwapped (W.part (W.key r))
    have hRows := (hRun _ hFirst).2 (W.part (W.key r))
    rw [rowsAt, hFiles] at hRows
    have hSame := hRows.symm.trans ((hRun _ hSwapped).2 (W.part (W.key r)))
    have hTie := sortBy_eq_iff.mp hSame (W.order r)
    simp [rows, hEncode, hEncode', Except.toOption, Schema.ofPart, ofKey, hPart, hOrder] at hTie
    exact hne hTie.1
  · intro hTotal calls calls' hCalls hCalls' p
    obtain ⟨hSound, hRows⟩ := hRun calls hCalls
    obtain ⟨hSound', hRows'⟩ := hRun calls' hCalls'
    apply hSound.get?_eq hSound'
    rw [hRows, hRows']
    have hPerm := (rows_perm (W := W) (hCalls.trans hCalls'.symm)).filter
      fun r => decide (W.part (W.key r) = p)
    apply sortBy_eq_of_perm hPerm
    apply List.Nodup.map_on
    · intro r hr s hs hOrder
      obtain ⟨hMem, hPart⟩ := Schema.mem_ofPart.mp hr
      obtain ⟨hMem', hPart'⟩ := Schema.mem_ofPart.mp hs
      exact hTotal r ((rows_perm hCalls).subset hMem) s ((rows_perm hCalls).subset hMem')
        (hPart.trans hPart'.symm) hOrder
    · apply List.Nodup.filter
      exact ((rows_perm hCalls).nodup_iff).mpr hKeys.of_map

end Writer

/-! ## Reading a window -/

section Read

variable {ℓ : Type} [LinearOrder ℓ]

/-- The rows of the files of a directory, in the order of their paths. -/
def readFiles (inDir : π → Bool) (path : π → ℓ) (files : Files π ρ) : List ρ :=
  (sortBy (fun file => path file.1) (files.items.filter fun file => inDir file.1)).flatMap
    Prod.snd

omit [DecidableEq π] in
theorem readFiles_perm (inDir : π → Bool) (path : π → ℓ) (files : Files π ρ) :
    (readFiles inDir path files).Perm
      ((files.items.filter fun file => inDir file.1).flatMap Prod.snd) :=
  (sortBy_perm_self _ _).flatMap_right _

theorem mem_readFiles {inDir : π → Bool} {path : π → ℓ} {files : Files π ρ} {r : ρ} :
    r ∈ readFiles inDir path files ↔ ∃ p, inDir p ∧ r ∈ rowsAt files p := by
  rw [(readFiles_perm inDir path files).mem_iff, List.mem_flatMap]
  constructor
  · rintro ⟨file, hFile, hr⟩
    obtain ⟨hItem, hDir⟩ := List.mem_filter.mp hFile
    refine ⟨file.1, hDir, ?_⟩
    rw [rowsAt, (files.mem_items_iff file.1 file.2).mp hItem]
    exact hr
  · rintro ⟨p, hDir, hr⟩
    unfold rowsAt at hr
    cases hFile : files.get? p with
    | none => simp [hFile] at hr
    | some rows =>
      rw [hFile] at hr
      exact ⟨(p, rows), List.mem_filter.mpr ⟨(files.mem_items_iff p rows).mpr hFile, hDir⟩, hr⟩

omit [DecidableEq κ] in
theorem Schema.Sound.nodup_readFiles {S : Schema ρ κ π τ} {files : Files π ρ} (h : S.Sound files)
    (inDir : π → Bool) (path : π → ℓ) : ((readFiles inDir path files).map S.key).Nodup := by
  rw [((readFiles_perm inDir path files).map S.key).nodup_iff]
  have hAll : allRows files = files.items.flatMap Prod.snd := by
    unfold allRows Dict.values
    rw [List.flatMap_def]
  have hSub : ((files.items.filter fun file => inDir file.1).flatMap Prod.snd).Sublist
      (allRows files) := by
    rw [hAll, List.flatMap_def, List.flatMap_def]
    exact (List.filter_sublist.map Prod.snd).flatten
  exact h.nodup_allRows.sublist (hSub.map S.key)

/-- Each file with the rows that pass the test, without the files that have none. -/
def passing (inDir : π → Bool) (test : ρ → Bool) (files : Files π ρ) : List (π × List ρ) :=
  ((files.items.filter fun file => inDir file.1).map fun file =>
    (file.1, file.2.filter test)).filter fun file => !file.2.isEmpty

omit [DecidableEq π] in
theorem filter_readFiles (inDir : π → Bool) (path : π → ℓ) (test : ρ → Bool) (files : Files π ρ) :
    (readFiles inDir path files).filter test =
      (sortBy (fun file => path file.1) (passing inDir test files)).flatMap Prod.snd := by
  have hDrop : ∀ items : List (π × List ρ),
      (items.filter fun file => !file.2.isEmpty).flatMap Prod.snd = items.flatMap Prod.snd := by
    intro items
    induction items with
    | nil => rfl
    | cons file rest ih =>
      obtain ⟨p, rows⟩ := file
      cases rows with
      | nil => simpa using ih
      | cons r rows => simpa using ih
  have hMap : ∀ items : List (π × List ρ),
      sortBy (fun file => path file.1) (items.map fun file => (file.1, file.2.filter test)) =
        (sortBy (fun file => path file.1) items).map fun file => (file.1, file.2.filter test) :=
    sortBy_map _ _
  rw [passing, ← sortBy_filter, hDrop, hMap, readFiles, List.filter_flatMap, List.flatMap_map]

omit [DecidableEq π] in
theorem nodup_passing (inDir : π → Bool) (test : ρ → Bool) (files : Files π ρ) :
    ((passing inDir test files).map Prod.fst).Nodup := by
  have hSub := List.filter_sublist (p := fun file : π × List ρ => !file.2.isEmpty)
    (l := (files.items.filter fun file => inDir file.1).map fun file => (file.1, file.2.filter test))
  apply (hSub.map Prod.fst).nodup
  rw [List.map_map]
  exact (List.filter_sublist.map Prod.fst).nodup files.nodup_keys

theorem mem_passing {inDir : π → Bool} {test : ρ → Bool} {files : Files π ρ} {p : π}
    {rows : List ρ} : (p, rows) ∈ passing inDir test files ↔
      inDir p ∧ rows ≠ [] ∧ (rowsAt files p).filter test = rows := by
  unfold passing
  rw [List.mem_filter, List.mem_map]
  constructor
  · rintro ⟨⟨file, hFile, hEq⟩, hRows⟩
    obtain ⟨rfl, rfl⟩ := Prod.mk.inj hEq
    obtain ⟨hItem, hDir⟩ := List.mem_filter.mp hFile
    refine ⟨hDir, by simpa using hRows, ?_⟩
    rw [rowsAt, (files.mem_items_iff file.1 file.2).mp hItem]
    rfl
  · rintro ⟨hDir, hRows, rfl⟩
    refine ⟨?_, by simpa using hRows⟩
    cases hFile : files.get? p with
    | none => simp [rowsAt, hFile] at hRows
    | some stored =>
      refine ⟨(p, stored), List.mem_filter.mpr ⟨(files.mem_items_iff p stored).mpr hFile, hDir⟩, ?_⟩
      rw [rowsAt, hFile]
      rfl

/-- What a read selects depends on the rows that it selects from each file only. -/
theorem filter_readFiles_congr {inDir : π → Bool} {path : π → ℓ} {test : ρ → Bool}
    {files files' : Files π ρ}
    (hRows : ∀ p, (rowsAt files p).filter test = (rowsAt files' p).filter test)
    (hPath : ∀ p q, inDir p → inDir q → path p = path q → p = q) :
    (readFiles inDir path files).filter test = (readFiles inDir path files').filter test := by
  rw [filter_readFiles, filter_readFiles]
  have hPerm : (passing inDir test files).Perm (passing inDir test files') := by
    apply (List.perm_ext_iff_of_nodup (nodup_passing inDir test files).of_map
      (nodup_passing inDir test files').of_map).mpr
    intro file
    rw [mem_passing, mem_passing, hRows]
  rw [sortBy_eq_of_perm hPerm]
  apply List.Nodup.map_on _ (nodup_passing inDir test files).of_map
  intro a ha b hb hSame
  exact List.inj_on_of_nodup_map (nodup_passing inDir test files) ha hb
    (hPath a.1 b.1 (mem_passing.mp ha).1 (mem_passing.mp hb).1 hSame)

/-- A directory is read alike from equal files, if paths tell its files apart. -/
theorem readFiles_congr {inDir : π → Bool} {path : π → ℓ} {files files' : Files π ρ}
    (hFiles : ∀ p, files.get? p = files'.get? p)
    (hPath : ∀ p q, inDir p → inDir q → path p = path q → p = q) :
    readFiles inDir path files = readFiles inDir path files' := by
  have hRows : ∀ p, (rowsAt files p).filter (fun _ => true) =
      (rowsAt files' p).filter fun _ => true := fun p => by simp only [rowsAt, hFiles]
  have hAll := filter_readFiles_congr hRows hPath
  rwa [List.filter_true, List.filter_true] at hAll

theorem any_keys_congr (inDir : π → Bool) {files files' : Files π ρ}
    (hFiles : ∀ p, files.get? p = files'.get? p) : files.keys.any inDir = files'.keys.any inDir := by
  have hKeys : ∀ p, p ∈ files.keys ↔ p ∈ files'.keys := by
    intro p
    rw [Dict.mem_keys_iff, Dict.mem_keys_iff, hFiles]
  rw [Bool.eq_iff_iff, List.any_eq_true, List.any_eq_true]
  simp only [hKeys]

end Read

end Futur3.Prelude
