import Futur3.Prelude.Dict
import Futur3.Prelude.KeyedRows
import Futur3.Prelude.OperationRun
import Mathlib.Algebra.BigOperators.Ring.Finset
import Mathlib.Data.List.Induction

/-! # Append-only stores over partition files

A write sorts its records into partitions, removes duplicates inside each
part, and appends to the file of the partition the rows whose keys it does not
hold yet. A record that has no place raises before anything is written; one
that cannot be encoded raises when its partition comes up, and leaves the
partitions before it written.
-/

namespace Futur3.Prelude

open Selection

/-! ## Grouping -/

section Group

variable {α π : Type} [DecidableEq π]

/-- `groups.setdefault(f(a), []).append(a)` for each item in turn. -/
def groupBy (f : α → π) (items : List α) : Dict π (List α) :=
  items.foldl (fun groups a => groups.set (f a) ((groups.get? (f a)).getD [] ++ [a])) .empty

theorem groupBy_concat (f : α → π) (items : List α) (a : α) :
    groupBy f (items ++ [a]) =
      (groupBy f items).set (f a) (((groupBy f items).get? (f a)).getD [] ++ [a]) := by
  unfold groupBy
  rw [List.foldl_append]
  rfl

theorem get?_groupBy (f : α → π) (items : List α) (p : π) :
    (groupBy f items).get? p =
      if p ∈ items.map f then some (items.filter fun a => f a = p) else none := by
  induction items using List.reverseRecOn with
  | nil => rfl
  | append_singleton items a ih =>
    rw [groupBy_concat, Dict.get?_set]
    by_cases hp : p = f a
    · subst hp
      rw [if_pos rfl, if_pos (by simp), ih, List.filter_append]
      by_cases hMem : f a ∈ items.map f
      · simp [hMem]
      · have hNone : items.filter (fun b => decide (f b = f a)) = [] := by
          rw [List.filter_eq_nil_iff]
          intro b hb hEq
          exact hMem (List.mem_map.mpr ⟨b, hb, of_decide_eq_true hEq⟩)
        simp [hMem, hNone]
    · have hne : ¬f a = p := fun h => hp h.symm
      rw [if_neg hp, ih, List.filter_append]
      simp [hne, hp]

theorem mem_groupBy {f : α → π} {items : List α} {g : π × List α}
    (h : g ∈ (groupBy f items).items) :
    g.2 = items.filter (fun a => f a = g.1) ∧ g.1 ∈ items.map f := by
  have hGet := ((groupBy f items).mem_items_iff g.1 g.2).mp h
  rw [get?_groupBy] at hGet
  split_ifs at hGet with hMem
  exact ⟨(Option.some.inj hGet).symm, hMem⟩

theorem mem_keys_groupBy {f : α → π} {items : List α} {p : π} :
    p ∈ (groupBy f items).keys ↔ p ∈ items.map f := by
  rw [Dict.mem_keys_iff, get?_groupBy]
  split_ifs with h <;> simp [h]

/-- The groups share out the items. -/
theorem sum_length_groupBy (f : α → π) (items : List α) :
    ((groupBy f items).items.map fun g => g.2.length).sum = items.length := by
  have hTotal : (groupBy f items).total (fun _ group => (group.length : ℤ)) = items.length := by
    induction items using List.reverseRecOn with
    | nil => rfl
    | append_singleton items a ih =>
      rw [groupBy_concat, Dict.total_set, ih]
      cases (groupBy f items).get? (f a) with
      | none => simp
      | some group =>
        simp
        omega
  unfold Dict.total at hTotal
  have hCast : ((((groupBy f items).items.map fun g => g.2.length).sum : ℕ) : ℤ) =
      ((groupBy f items).items.map fun g => (g.2.length : ℤ)).sum := by
    rw [Nat.cast_list_sum, List.map_map]
    rfl
  exact Int.ofNat.inj (hCast.trans hTotal)

end Group

/-! ## Records and rows -/

/-- What identifies a row, where its key belongs, and how the rows of a file are ordered. -/
structure Schema (ρ κ π τ : Type) where
  key : ρ → κ
  part : κ → π
  order : ρ → τ

/-- A schema with the records it stores: each has its place and its row, if nothing raises. -/
structure Writer (ε α ρ κ π τ : Type) extends Schema ρ κ π τ where
  place : α → Except ε π
  encode : α → Except ε ρ
  part_key_of_ok : ∀ {a p r}, place a = .ok p → encode a = .ok r → part (key r) = p

abbrev Files (π ρ : Type) := Dict π (List ρ)

structure WriteCount where
  written : ℕ
  deduped : ℕ
deriving DecidableEq, Repr

variable {ε α ρ κ π τ : Type}

namespace Writer

variable {W : Writer ε α ρ κ π τ}

def rows (W : Writer ε α ρ κ π τ) (items : List α) : List ρ := items.filterMap fun a => (W.encode a).toOption

/-- Nothing raises for this record. -/
def Accepts (W : Writer ε α ρ κ π τ) (a : α) : Prop := (∃ p, W.place a = .ok p) ∧ ∃ r, W.encode a = .ok r

theorem rows_append (xs ys : List α) : W.rows (xs ++ ys) = W.rows xs ++ W.rows ys :=
  List.filterMap_append

theorem mem_rows {items : List α} {r : ρ} :
    r ∈ W.rows items ↔ ∃ a ∈ items, W.encode a = .ok r := by
  unfold rows
  rw [List.mem_filterMap]
  constructor
  · rintro ⟨a, ha, hr⟩
    cases hEncode : W.encode a with
    | error e => simp [hEncode, Except.toOption] at hr
    | ok r' =>
      rw [hEncode] at hr
      exact ⟨a, ha, by rw [hEncode, Option.some.inj hr]⟩
  · rintro ⟨a, ha, hr⟩
    exact ⟨a, ha, by rw [hr]; rfl⟩

theorem rows_of_mapM {items : List α} {encoded : List ρ} (h : items.mapM W.encode = .ok encoded) :
    encoded = W.rows items := by
  have hMap := congrArg (List.filterMap Except.toOption) (except_mapM_ok_iff.mp h)
  rw [List.filterMap_map, List.filterMap_map] at hMap
  have hId : encoded.filterMap (Except.toOption ∘ (Except.ok : ρ → Except ε ρ)) = encoded :=
    List.filterMap_some
  exact hId.symm.trans hMap.symm

/-- The records that were placed, each beside its partition. -/
theorem placed_ok {items : List α} {placed : List (π × α)}
    (h : (items.mapM fun a => (·, a) <$> W.place a) = .ok placed) :
    placed.map Prod.snd = items ∧ ∀ x ∈ placed, W.place x.2 = .ok x.1 := by
  have hMap := except_mapM_ok_iff.mp h
  clear h
  induction items generalizing placed with
  | nil =>
    cases placed with
    | nil => simp
    | cons x rest => cases hMap
  | cons a rest ih =>
    cases placed with
    | nil => cases hMap
    | cons x rest' =>
      rw [List.map_cons, List.map_cons] at hMap
      obtain ⟨hHead, hTail⟩ := List.cons.inj hMap
      obtain ⟨hRest, hAll⟩ := ih hTail
      cases hPlace : W.place a with
      | error e =>
        rw [hPlace] at hHead
        cases hHead
      | ok p =>
        rw [hPlace] at hHead
        cases hHead
        constructor
        · rw [List.map_cons, hRest]
        · intro y hy
          rcases List.mem_cons.mp hy with rfl | hy
          · exact hPlace
          · exact hAll y hy

end Writer

variable [DecidableEq κ] [DecidableEq π] [LinearOrder τ]

def rowsAt (files : Files π ρ) (p : π) : List ρ := (files.get? p).getD []

def allRows (files : Files π ρ) : List ρ := files.values.flatten

namespace Schema

variable (S : Schema ρ κ π τ)

def writePart (p : π) (rows : List ρ) : Method ε (Files π ρ) WriteCount := do
  let files ← get
  let submitted := keepLast S.key rows
  let internalDupes := rows.length - submitted.length
  match files.get? p with
  | some existing =>
    let newOnly := antiJoin S.key submitted existing
    let collisions := submitted.length - newOnly.length
    set (files.set p (sortBy S.order (existing ++ newOnly)))
    return ⟨newOnly.length, internalDupes + collisions⟩
  | none =>
    set (files.set p (sortBy S.order submitted))
    return ⟨submitted.length, internalDupes⟩

def ofPart (p : π) (rows : List ρ) : List ρ := rows.filter fun r => S.part (S.key r) = p

/-- Every file holds rows of its own partition, one for a key, in order. -/
structure Sound (files : Files π ρ) : Prop where
  placed : ∀ p, ∀ r ∈ rowsAt files p, S.part (S.key r) = p
  nodup : ∀ p, ((rowsAt files p).map S.key).Nodup
  sorted : ∀ p, (rowsAt files p).Pairwise fun a b => S.order a ≤ S.order b
  nonempty : ∀ p, files.get? p ≠ some []

end Schema

namespace Writer

variable (W : Writer ε α ρ κ π τ)

def writeGroup (group : π × List (π × α)) : Method ε (Files π ρ) WriteCount := do
  let rows ← Method.liftExcept (group.2.mapM fun placed => W.encode placed.2)
  W.writePart group.1 rows

/-- Write a batch; an empty one does nothing. -/
def write (items : List α) : Method ε (Files π ρ) WriteCount :=
  if items.isEmpty then pure ⟨0, 0⟩
  else do
    let placed ← Method.liftExcept (items.mapM fun a => (·, a) <$> W.place a)
    let counts ← Method.each W.writeGroup (groupBy Prod.fst placed).items
    return ⟨(counts.map WriteCount.written).sum, (counts.map WriteCount.deduped).sum⟩

end Writer

/-! ## Files -/

theorem mem_allRows {files : Files π ρ} {r : ρ} : r ∈ allRows files ↔ ∃ p, r ∈ rowsAt files p := by
  unfold allRows rowsAt
  rw [List.mem_flatten]
  constructor
  · rintro ⟨rows, hRows, hr⟩
    obtain ⟨p, hp⟩ := (files.mem_values_iff rows).mp hRows
    exact ⟨p, by rwa [hp]⟩
  · rintro ⟨p, hr⟩
    cases hp : files.get? p with
    | none => simp [hp] at hr
    | some rows =>
      rw [hp] at hr
      exact ⟨rows, (files.mem_values_iff rows).mpr ⟨p, hp⟩, hr⟩

theorem rowsAt_set (files : Files π ρ) (p q : π) (rows : List ρ) :
    rowsAt (files.set p rows) q = if q = p then rows else rowsAt files q := by
  unfold rowsAt
  rw [Dict.get?_set]
  split_ifs <;> rfl

theorem rowsAt_empty (p : π) : rowsAt (.empty : Files π ρ) p = [] := rfl

/-! ## One partition -/

namespace Schema

variable {S : Schema ρ κ π τ}

omit [DecidableEq κ] in
theorem sound_empty : S.Sound (.empty : Files π ρ) where
  placed := by simp [rowsAt_empty]
  nodup := by simp [rowsAt_empty]
  sorted := by simp [rowsAt_empty]
  nonempty := by simp

omit [DecidableEq κ] [LinearOrder τ] in
theorem mem_ofPart {p : π} {rows : List ρ} {r : ρ} :
    r ∈ S.ofPart p rows ↔ r ∈ rows ∧ S.part (S.key r) = p := by
  simp [ofPart]

/-- Writing a partition merges the batch into its file and counts every row of it. -/
theorem writePart_run (p : π) (rows : List ρ) (files : Files π ρ) :
    ∃ c : WriteCount, (S.writePart p rows : Method ε (Files π ρ) WriteCount) files =
        .ok c (files.set p (merge S.key S.order (rowsAt files p) rows)) ∧
      c.written + c.deduped = rows.length := by
  have hKept : (keepLast S.key rows).length ≤ rows.length := length_keepLast_le rows
  unfold writePart
  rw [Method.get_bind]
  cases hFile : files.get? p with
  | none =>
    have hRows : rowsAt files p = [] := by simp [rowsAt, hFile]
    refine ⟨⟨(keepLast S.key rows).length, rows.length - (keepLast S.key rows).length⟩, ?_, ?_⟩
    · rw [hRows, merge, antiJoin_nil, List.nil_append]
      rfl
    · simp only
      omega
  | some existing =>
    have hRows : rowsAt files p = existing := by simp [rowsAt, hFile]
    have hNew : (antiJoin S.key (keepLast S.key rows) existing).length ≤ (keepLast S.key rows).length :=
      length_antiJoin_le (keepLast S.key rows) existing
    refine ⟨⟨(antiJoin S.key (keepLast S.key rows) existing).length,
      rows.length - (keepLast S.key rows).length + ((keepLast S.key rows).length -
        (antiJoin S.key (keepLast S.key rows) existing).length)⟩, ?_, ?_⟩
    · rw [hRows]
      rfl
    · simp only
      omega

omit [DecidableEq π] in
theorem merge_ne_nil {existing rows : List ρ} (h : rows ≠ []) :
    merge S.key S.order existing rows ≠ [] := by
  intro hNil
  unfold merge at hNil
  rw [sortBy_eq_nil_iff, List.append_eq_nil_iff] at hNil
  obtain ⟨rfl, hNew⟩ := hNil
  rw [antiJoin_nil] at hNew
  obtain ⟨r, rest, rfl⟩ := List.exists_cons_of_ne_nil h
  have hMem : S.key r ∈ (keepLast S.key (r :: rest)).map S.key :=
    mem_map_keepLast.mpr List.mem_cons_self
  rw [hNew] at hMem
  cases hMem

theorem Sound.merged {files : Files π ρ} (h : S.Sound files) {p : π} {rows : List ρ}
    (hPlaced : ∀ r ∈ rows, S.part (S.key r) = p) (hNil : rows ≠ []) :
    S.Sound (files.set p (merge S.key S.order (rowsAt files p) rows)) where
  placed q r hr := by
    rw [rowsAt_set] at hr
    split_ifs at hr with hq
    · rcases mem_merge hr with hr | hr
      · exact hq ▸ h.placed p r hr
      · exact hq ▸ hPlaced r hr
    · exact h.placed q r hr
  nodup q := by
    rw [rowsAt_set]
    split_ifs
    · exact nodup_merge (h.nodup p) rows
    · exact h.nodup q
  sorted q := by
    rw [rowsAt_set]
    split_ifs
    · exact pairwise_sortBy S.order _
    · exact h.sorted q
  nonempty q := by
    rw [Dict.get?_set]
    split_ifs
    · intro hEmpty
      exact merge_ne_nil hNil (Option.some.inj hEmpty)
    · exact h.nonempty q

end Schema

/-! ## A whole batch -/

namespace Writer

variable {W : Writer ε α ρ κ π τ}

theorem writeGroup_ok_iff {group : π × List (π × α)} {files files' : Files π ρ} {c : WriteCount}
    (h : W.writeGroup group files = .ok c files') :
    (∀ x ∈ group.2, ∃ r, W.encode x.2 = .ok r) ∧
      files' = files.set group.1
        (merge W.key W.order (rowsAt files group.1) (W.rows (group.2.map Prod.snd))) ∧
      c.written + c.deduped = group.2.length := by
  obtain ⟨encoded, s, hLift, hWrite⟩ := Method.bind_ok_iff.mp h
  obtain ⟨hEncoded, rfl⟩ := Method.liftExcept_ok_iff.mp hLift
  have hMap : (group.2.map Prod.snd).mapM W.encode = .ok encoded := by
    rw [except_mapM_ok_iff, List.map_map]
    exact except_mapM_ok_iff.mp hEncoded
  obtain ⟨c', hRun, hCount⟩ := Schema.writePart_run (ε := ε) (S := W.toSchema) group.1 encoded files
  rw [hRun] at hWrite
  cases hWrite
  have hAll : ∀ x ∈ group.2, ∃ r, W.encode x.2 = .ok r := by
    intro x hx
    have hMem : W.encode x.2 ∈ encoded.map Except.ok := by
      rw [← except_mapM_ok_iff.mp hEncoded]
      exact List.mem_map_of_mem hx
    obtain ⟨r, -, hr⟩ := List.mem_map.mp hMem
    exact ⟨r, hr.symm⟩
  refine ⟨hAll, by rw [rows_of_mapM hMap], ?_⟩
  have hLength := congrArg List.length (except_mapM_ok_iff.mp hEncoded)
  rw [List.length_map, List.length_map] at hLength
  rw [hCount, hLength]

structure Wrote (W : Writer ε α ρ κ π τ) (items : List α) (files files' : Files π ρ) : Prop where
  accepts : ∀ a ∈ items, W.Accepts a
  merged : ∀ p, rowsAt files' p =
    merge W.key W.order (rowsAt files p) (W.ofPart p (W.rows items))
  sound : W.Sound files'

omit [DecidableEq κ] [LinearOrder τ] in
/-- One partition's group of records has the rows of that partition. -/
theorem rows_group {placed : List (π × α)} (hPlaced : ∀ x ∈ placed, W.place x.2 = .ok x.1)
    (p : π) :
    W.rows ((placed.filter fun x => x.1 = p).map Prod.snd) =
      W.ofPart p (W.rows (placed.map Prod.snd)) := by
  induction placed with
  | nil => rfl
  | cons x rest ih =>
    have hRest := ih fun y hy => hPlaced y (List.mem_cons_of_mem x hy)
    have hPlace := hPlaced x List.mem_cons_self
    unfold rows Schema.ofPart at hRest ⊢
    rw [List.map_cons, List.filterMap_cons]
    cases hEncode : W.encode x.2 with
    | error e =>
      rw [List.filter_cons]
      split_ifs
      · rw [List.map_cons, List.filterMap_cons, hEncode]
        exact hRest
      · exact hRest
    | ok r =>
      have hPart := W.part_key_of_ok hPlace hEncode
      rw [List.filter_cons]
      by_cases hx : x.1 = p
      · simp only [hx, decide_true, if_true, List.map_cons, List.filterMap_cons, hEncode]
        change r :: _ = List.filter _ (r :: _)
        rw [List.filter_cons, if_pos (by simp [hPart, hx]), hRest]
      · simp only [hx, decide_false, if_neg Bool.false_ne_true]
        change _ = List.filter _ (r :: _)
        rw [List.filter_cons, if_neg (by simp [hPart, hx]), hRest]

/-- One group's turn merges the rows of its partition. -/
theorem writeGroup_step {items : List α} {placed : List (π × α)} {g : π × List (π × α)}
    {s s' : Files π ρ} {c : WriteCount} (hItems : placed.map Prod.snd = items)
    (hPlaced : ∀ x ∈ placed, W.place x.2 = .ok x.1) (hMem : g ∈ (groupBy Prod.fst placed).items)
    (hStep : W.writeGroup g s = .ok c s') :
    s' = s.set g.1 (merge W.key W.order (rowsAt s g.1) (W.ofPart g.1 (W.rows items))) ∧
      W.ofPart g.1 (W.rows items) ≠ [] ∧ (∀ x ∈ g.2, ∃ r, W.encode x.2 = .ok r) ∧
      c.written + c.deduped = g.2.length := by
  obtain ⟨hGroup, rfl, hLength⟩ := writeGroup_ok_iff hStep
  obtain ⟨hFilter, hKey⟩ := mem_groupBy hMem
  have hBatch : W.rows (g.2.map Prod.snd) = W.ofPart g.1 (W.rows items) := by
    rw [hFilter, rows_group hPlaced, hItems]
  refine ⟨by rw [hBatch], ?_, hGroup, hLength⟩
  obtain ⟨x, hx, hxKey⟩ := List.mem_map.mp hKey
  have hxGroup : x ∈ g.2 := by
    rw [hFilter]
    exact List.mem_filter.mpr ⟨hx, decide_eq_true hxKey⟩
  obtain ⟨r, hr⟩ := hGroup x hxGroup
  rw [← hBatch]
  exact List.ne_nil_of_mem (mem_rows.mpr ⟨x.2, List.mem_map_of_mem hxGroup, hr⟩)

/-- Midway through a write: the partitions done are merged, the others are as before. -/
structure Progress (W : Writer ε α ρ κ π τ) (items : List α) (files : Files π ρ)
    (done : List (π × List (π × α))) (log : List WriteCount) (s : Files π ρ) : Prop where
  sound : W.Sound s
  encoded : ∀ g ∈ done, ∀ x ∈ g.2, ∃ r, W.encode x.2 = .ok r
  rows : ∀ p, rowsAt s p = if p ∈ done.map Prod.fst then
    merge W.key W.order (rowsAt files p) (W.ofPart p (W.rows items)) else rowsAt files p
  count : (log.map WriteCount.written).sum + (log.map WriteCount.deduped).sum =
    (done.map fun g => g.2.length).sum

section Progress

variable {items : List α} {placed : List (π × α)} {files s s' : Files π ρ}
  {done : List (π × List (π × α))} {log : List WriteCount}

theorem Progress.step {g : π × List (π × α)} {later : List (π × List (π × α))} {c : WriteCount}
    (h : Progress W items files done log s) (hItems : placed.map Prod.snd = items)
    (hPlaced : ∀ x ∈ placed, W.place x.2 = .ok x.1)
    (hGroups : (groupBy Prod.fst placed).items = done ++ g :: later)
    (hStep : W.writeGroup g s = .ok c s') :
    Progress W items files (done ++ [g]) (log ++ [c]) s' := by
  have hMem : g ∈ (groupBy Prod.fst placed).items := by
    rw [hGroups]
    simp
  obtain ⟨rfl, hNil, hGroup, hLength⟩ := writeGroup_step hItems hPlaced hMem hStep
  have hOther : g.1 ∉ done.map Prod.fst := by
    have hNodup := (groupBy Prod.fst placed).nodup_keys
    rw [hGroups, List.map_append, List.map_cons] at hNodup
    intro hDone
    exact (List.nodup_append.mp hNodup).2.2 _ hDone _ List.mem_cons_self rfl
  refine ⟨h.sound.merged (fun r hr => (Schema.mem_ofPart.mp hr).2) hNil, ?_, ?_, ?_⟩
  · intro g' hg'
    rcases List.mem_append.mp hg' with hg' | hg'
    · exact h.encoded g' hg'
    · rw [List.mem_singleton.mp hg']
      exact hGroup
  · intro p
    rw [rowsAt_set, List.map_append, List.map_singleton]
    by_cases hp : p = g.1
    · subst hp
      have hNow : g.1 ∈ done.map Prod.fst ++ [g.1] := by simp
      rw [if_pos rfl, h.rows, if_neg hOther, if_pos hNow]
    · have hIff : p ∈ done.map Prod.fst ++ [g.1] ↔ p ∈ done.map Prod.fst := by simp [hp]
      rw [if_neg hp, h.rows]
      simp only [hIff]
  · have hCount := h.count
    simp only [List.map_append, List.map_singleton, List.sum_append, List.sum_singleton]
    omega

theorem Progress.wrote (h : Progress W items files (groupBy Prod.fst placed).items log s)
    (hSound : W.Sound files) (hItems : placed.map Prod.snd = items)
    (hPlaced : ∀ x ∈ placed, W.place x.2 = .ok x.1) : Wrote W items files s where
  accepts a ha := by
    rw [← hItems] at ha
    obtain ⟨x, hx, rfl⟩ := List.mem_map.mp ha
    have hGet := get?_groupBy Prod.fst placed x.1
    rw [if_pos (List.mem_map_of_mem hx)] at hGet
    have hGroup := ((groupBy Prod.fst placed).mem_items_iff _ _).mpr hGet
    refine ⟨⟨x.1, hPlaced x hx⟩, ?_⟩
    exact h.encoded _ hGroup x (List.mem_filter.mpr ⟨hx, decide_eq_true rfl⟩)
  merged p := by
    rw [h.rows p]
    split_ifs with hMem
    · rfl
    · have hFilter : placed.filter (fun x => decide (x.1 = p)) = [] := by
        rw [List.filter_eq_nil_iff]
        intro x hx hEq
        exact hMem (mem_keys_groupBy.mpr (List.mem_map.mpr ⟨x, hx, of_decide_eq_true hEq⟩))
      have hNone : W.ofPart p (W.rows items) = [] := by
        rw [← hItems, ← rows_group hPlaced, hFilter]
        rfl
      rw [hNone, merge_nil (hSound.sorted p)]
  sound := h.sound

end Progress

/-- What a write that returns has done, and that it counts every record it was given. -/
theorem write_ok {items : List α} {files files' : Files π ρ} {c : WriteCount}
    (hSound : W.Sound files) (h : W.write items files = .ok c files') :
    Wrote W items files files' ∧ c.written + c.deduped = items.length := by
  unfold write at h
  cases items with
  | nil =>
    obtain ⟨rfl, rfl⟩ := Method.pure_ok_iff.mp h
    refine ⟨⟨by simp, ?_, hSound⟩, rfl⟩
    intro p
    exact (merge_nil (hSound.sorted p)).symm
  | cons a rest =>
    rw [if_neg (by simp)] at h
    obtain ⟨placed, s, hLift, h⟩ := Method.bind_ok_iff.mp h
    obtain ⟨hPlace, rfl⟩ := Method.liftExcept_ok_iff.mp hLift
    obtain ⟨counts, s', hEach, h⟩ := Method.bind_ok_iff.mp h
    obtain ⟨rfl, rfl⟩ := Method.pure_ok_iff.mp h
    obtain ⟨hItems, hPlaced⟩ := placed_ok hPlace
    have hDone := Method.each_rule (Progress W (a :: rest) files)
      (fun done g later log c s s' hGroups hInv hStep => hInv.step hItems hPlaced hGroups hStep)
      ⟨hSound, by simp, by simp, by simp⟩ hEach
    refine ⟨hDone.wrote hSound hItems hPlaced, ?_⟩
    rw [hDone.count, sum_length_groupBy, ← hItems, List.length_map]

/-! ## Writes that raise -/

/-- Nothing is removed, and what is added was submitted. -/
structure Grown (W : Writer ε α ρ κ π τ) (submitted : List ρ) (files files' : Files π ρ) : Prop where
  sound : W.Sound files'
  kept : ∀ p, ∀ r ∈ rowsAt files p, r ∈ rowsAt files' p
  added : ∀ p, ∀ r ∈ rowsAt files' p, r ∈ rowsAt files p ∨ r ∈ submitted

omit [DecidableEq κ] in
theorem Grown.refl {submitted : List ρ} {files : Files π ρ} (h : W.Sound files) :
    Grown W submitted files files where
  sound := h
  kept _ _ hr := hr
  added _ _ hr := Or.inl hr

omit [DecidableEq π] in
theorem mem_merge_of_mem {existing batch : List ρ} {r : ρ} (h : r ∈ existing) :
    r ∈ merge W.key W.order existing batch :=
  mem_sortBy.mpr (List.mem_append_left _ h)

theorem Wrote.grown {items : List α} {files files' : Files π ρ} (h : Wrote W items files files') :
    Grown W (W.rows items) files files' where
  sound := h.sound
  kept p r hr := by
    rw [h.merged p]
    exact mem_merge_of_mem hr
  added p r hr := by
    rw [h.merged p] at hr
    rcases mem_merge hr with hr | hr
    · exact Or.inl hr
    · exact Or.inr (Schema.mem_ofPart.mp hr).1

theorem writeGroup_error {group : π × List (π × α)} {files files' : Files π ρ} {e : ε}
    (h : W.writeGroup group files = .error e files') : files' = files := by
  rcases Method.bind_error_iff.mp h with h | ⟨encoded, s, -, hWrite⟩
  · exact (Method.liftExcept_error_iff.mp h).2.symm
  · obtain ⟨c, hRun, -⟩ := Schema.writePart_run (ε := ε) (S := W.toSchema) group.1 encoded s
    rw [hRun] at hWrite
    cases hWrite

theorem Grown.merged {rows submitted : List ρ} {files s : Files π ρ} {p : π}
    (h : Grown W submitted files s) (hNil : W.ofPart p rows ≠ []) (hRows : rows ⊆ submitted) :
    Grown W submitted files (s.set p (merge W.key W.order (rowsAt s p) (W.ofPart p rows))) where
  sound := h.sound.merged (fun r hr => (Schema.mem_ofPart.mp hr).2) hNil
  kept q r hr := by
    rw [rowsAt_set]
    split_ifs with hq
    · exact mem_merge_of_mem (h.kept p r (hq ▸ hr))
    · exact h.kept q r hr
  added q r hr := by
    rw [rowsAt_set] at hr
    split_ifs at hr with hq
    · rcases mem_merge hr with hr | hr
      · exact hq ▸ h.added p r hr
      · exact Or.inr (hRows (Schema.mem_ofPart.mp hr).1)
    · exact h.added q r hr

/-- Whether the write returns or raises. -/
theorem grown_write (items : List α) {files : Files π ρ} (hSound : W.Sound files) :
    Grown W (W.rows items) files ((W.write items).after files) := by
  cases hRun : W.write items files with
  | ok c files' =>
    rw [Method.after_of_ok hRun]
    exact (write_ok hSound hRun).1.grown
  | error e files' =>
    rw [Method.after_of_error hRun]
    unfold write at hRun
    split_ifs at hRun
    · exact absurd hRun (by simp [Method.pure_error_iff])
    · rcases Method.bind_error_iff.mp hRun with h | ⟨placed, s, hLift, h⟩
      · rw [(Method.liftExcept_error_iff.mp h).2.symm]
        exact Grown.refl hSound
      · obtain ⟨hPlace, rfl⟩ := Method.liftExcept_ok_iff.mp hLift
        obtain ⟨hItems, hPlaced⟩ := placed_ok hPlace
        rcases Method.bind_error_iff.mp h with h | ⟨counts, s', -, h⟩
        · rw [← Method.after_of_error h]
          apply Method.after_each_invariant (Grown W (W.rows items) files) _ (Grown.refl hSound)
          intro g hg s hInv
          cases hGroup : W.writeGroup g s with
          | error e' s' =>
            rw [Method.after_of_error hGroup, writeGroup_error hGroup]
            exact hInv
          | ok c s' =>
            obtain ⟨rfl, hNil, -, -⟩ := writeGroup_step hItems hPlaced hg hGroup
            rw [Method.after_of_ok hGroup]
            exact hInv.merged hNil (List.Subset.refl _)
        · exact absurd h (by simp [Method.pure_error_iff])

/-! ## Writes that return -/

theorem writeGroup_returns {group : π × List (π × α)}
    (h : ∀ x ∈ group.2, ∃ r, W.encode x.2 = .ok r) (files : Files π ρ) :
    ∃ c files', W.writeGroup group files = .ok c files' := by
  obtain ⟨encoded, hEncoded⟩ := except_mapM_returns h
  obtain ⟨c, hRun, -⟩ := Schema.writePart_run (ε := ε) (S := W.toSchema) group.1 encoded files
  have hLift := Method.liftExcept_ok_iff.mpr ⟨hEncoded, (rfl : files = files)⟩
  exact ⟨c, _, (Method.bind_of_ok hLift).trans hRun⟩

/-- Only a record that is not accepted makes a write raise. -/
theorem write_returns {items : List α} (h : ∀ a ∈ items, W.Accepts a) (files : Files π ρ) :
    ∃ c files', W.write items files = .ok c files' := by
  unfold write
  split_ifs
  · exact ⟨_, files, rfl⟩
  · have hPlaces : ∀ a ∈ items, ∃ x, (·, a) <$> W.place a = Except.ok x := by
      intro a ha
      obtain ⟨p, hp⟩ := (h a ha).1
      exact ⟨(p, a), by rw [hp]; rfl⟩
    obtain ⟨placed, hPlace⟩ := except_mapM_returns hPlaces
    obtain ⟨hItems, -⟩ := placed_ok hPlace
    have hGroups : ∀ g ∈ (groupBy Prod.fst placed).items, ∀ s : Files π ρ,
        ∃ c s', W.writeGroup g s = .ok c s' := by
      intro g hg s
      apply writeGroup_returns
      intro x hx
      rw [(mem_groupBy hg).1] at hx
      apply (h x.2 _).2
      rw [← hItems]
      exact List.mem_map_of_mem (List.mem_filter.mp hx).1
    obtain ⟨counts, files', hEach⟩ := Method.each_returns hGroups files
    have hLift := Method.liftExcept_ok_iff.mpr ⟨hPlace, (rfl : files = files)⟩
    exact ⟨_, files', (Method.bind_of_ok hLift).trans (Method.bind_of_ok hEach)⟩

end Writer

end Futur3.Prelude
