import Mathlib.Data.List.Basic

/-!
# Blocks of a memory

A memory is a function from addresses to cells.  A load reads a block; a store or an
erasure beside the block leaves what it reads as it was.
-/

namespace VisioSchema.Library

variable {β : Type*}

structure Block where
  offset : ℕ
  size : ℕ
  deriving DecidableEq, Repr

namespace Block

/-- The block's cells. -/
def Holds (block : Block) (address : ℕ) : Prop :=
  block.offset ≤ address ∧ address < block.offset + block.size

instance (block : Block) (address : ℕ) : Decidable (block.Holds address) :=
  inferInstanceAs (Decidable (_ ∧ _))

/-- One block ends before the other begins. -/
def Apart (a b : Block) : Prop := a.offset + a.size ≤ b.offset ∨ b.offset + b.size ≤ a.offset

theorem Apart.symm {a b : Block} (hapart : Apart a b) : Apart b a := Or.symm hapart

theorem Apart.not_holds {a b : Block} (hapart : Apart a b) {address : ℕ}
    (hholds : a.Holds address) : ¬b.Holds address := by
  unfold Apart at hapart
  unfold Holds at *
  omega

def load (memory : ℕ → β) (block : Block) : List β :=
  (List.range block.size).map fun i => memory (block.offset + i)

def store (memory : ℕ → β) (offset : ℕ) (cells : List β) : ℕ → β := fun address =>
  if offset ≤ address then cells[address - offset]?.getD (memory address) else memory address

def erase (memory : ℕ → β) (block : Block) (blank : β) : ℕ → β := fun address =>
  if block.Holds address then blank else memory address

variable {memory other : ℕ → β} {block : Block} {offset : ℕ} {cells : List β} {blank : β}

theorem load_congr (hsame : ∀ address, block.Holds address → memory address = other address) :
    load memory block = load other block := by
  refine List.map_congr_left fun i hi => hsame _ ⟨Nat.le_add_right .., ?_⟩
  have := List.mem_range.mp hi
  omega

theorem store_outside {address : ℕ} (houtside : ¬Holds ⟨offset, cells.length⟩ address) :
    store memory offset cells address = memory address := by
  unfold store
  by_cases hle : offset ≤ address
  · have hpast : cells.length ≤ address - offset := by
      have hnot : ¬address < offset + cells.length := fun hlt => houtside ⟨hle, hlt⟩
      omega
    rw [if_pos hle, List.getElem?_eq_none hpast]
    rfl
  · rw [if_neg hle]

theorem load_store_self : load (store memory offset cells) ⟨offset, cells.length⟩ = cells := by
  refine List.ext_getElem (by simp [load]) fun i hleft hright => ?_
  simp [load, store, hright]

theorem load_store_apart (hapart : Apart block ⟨offset, cells.length⟩) :
    load (store memory offset cells) block = load memory block :=
  load_congr fun _ hholds => store_outside (hapart.not_holds hholds)

theorem load_erase_apart {erased : Block} (hapart : Apart block erased) :
    load (erase memory erased blank) block = load memory block :=
  load_congr fun _ hholds => if_neg (hapart.not_holds hholds)

end Block

end VisioSchema.Library
