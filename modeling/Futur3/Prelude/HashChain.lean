import Mathlib.Data.List.Basic

/-! # Hash chains

Each record carries the hash of the one before it. A chain grows at its end by
a record that carries the hash of the last one.
-/

namespace Futur3.Prelude.HashChain

universe u v

variable {α : Type u} {β : Type v} (prev : α → Option β) (hash : α → β)

/-- The records form a chain that continues from this hash. -/
def ChainedFrom : Option β → List α → Prop
  | _, [] => True
  | last, a :: rest => prev a = last ∧ ChainedFrom (some (hash a)) rest

/-- The first record has no predecessor, every other one the record before it. -/
def Chained (records : List α) : Prop := ChainedFrom prev hash none records

/-- The hash of the last record, or the one the chain continues from. -/
def tipFrom : Option β → List α → Option β
  | last, [] => last
  | _, a :: rest => tipFrom (some (hash a)) rest

def tip (records : List α) : Option β := tipFrom hash none records

variable {prev hash}

theorem tipFrom_concat (last : Option β) (records : List α) (a : α) :
    tipFrom hash last (records ++ [a]) = some (hash a) := by
  induction records generalizing last with
  | nil => rfl
  | cons b rest ih => exact ih (some (hash b))

theorem ChainedFrom.concat {last : Option β} {records : List α} {a : α}
    (h : ChainedFrom prev hash last records) (ha : prev a = tipFrom hash last records) :
    ChainedFrom prev hash last (records ++ [a]) := by
  induction records generalizing last with
  | nil => exact ⟨ha, trivial⟩
  | cons b rest ih =>
    obtain ⟨hFirst, hRest⟩ := h
    exact ⟨hFirst, ih hRest ha⟩

theorem tip_concat (records : List α) (a : α) : tip hash (records ++ [a]) = some (hash a) :=
  tipFrom_concat none records a

theorem Chained.concat {records : List α} {a : α} (h : Chained prev hash records)
    (ha : prev a = tip hash records) : Chained prev hash (records ++ [a]) :=
  ChainedFrom.concat h ha

end Futur3.Prelude.HashChain
