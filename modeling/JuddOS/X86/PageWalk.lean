import Mathlib.Data.BitVec
import Mathlib.Tactic.Common

/-!
# The x86 two-level page walk

Page-directory and page-table entries with the bit-fields of the 32-bit format, and the
translation of a linear address through them with 4 MB and 4 KB pages.

A walk reads the directory, and for a 4 KB page one more page-sized frame of physical
memory as a page table.  Which frames hold which tables is a parameter: `tables` gives the
1024 entries that any frame holds when it is read as a page table.  So nothing is assumed
about frames that the owner of the tables does not know.
-/

namespace JuddOS
namespace X86

/-- A page-directory entry, field by field. -/
structure Pde where
  present : Bool
  readWrite : Bool
  userSupervisor : Bool
  writeThrough : Bool
  cacheDisabled : Bool
  accessed : Bool
  reserved : Bool
  pageSize : Bool
  ignored : Bool
  avail : BitVec 3
  pageTableAddr : BitVec 20
  deriving DecidableEq

/-- A page-table entry, field by field. -/
structure Pte where
  present : Bool
  readWrite : Bool
  userSupervisor : Bool
  writeThrough : Bool
  cacheDisabled : Bool
  accessed : Bool
  dirty : Bool
  reserved : Bool
  global : Bool
  avail : BitVec 3
  pageAddr : BitVec 20
  deriving DecidableEq

/-- The directory entry whose 32-bit value is `val`. -/
def Pde.ofVal (val : BitVec 32) : Pde where
  present := val.getLsbD 0
  readWrite := val.getLsbD 1
  userSupervisor := val.getLsbD 2
  writeThrough := val.getLsbD 3
  cacheDisabled := val.getLsbD 4
  accessed := val.getLsbD 5
  reserved := val.getLsbD 6
  pageSize := val.getLsbD 7
  ignored := val.getLsbD 8
  avail := val.extractLsb' 9 3
  pageTableAddr := val.extractLsb' 12 20

/-- The table entry whose 32-bit value is `val`. -/
def Pte.ofVal (val : BitVec 32) : Pte where
  present := val.getLsbD 0
  readWrite := val.getLsbD 1
  userSupervisor := val.getLsbD 2
  writeThrough := val.getLsbD 3
  cacheDisabled := val.getLsbD 4
  accessed := val.getLsbD 5
  dirty := val.getLsbD 6
  reserved := val.getLsbD 7
  global := val.getLsbD 8
  avail := val.extractLsb' 9 3
  pageAddr := val.extractLsb' 12 20

/-- The result of a walk: the physical address and whether user mode may use it. -/
structure Translation where
  phys : Nat
  user : Bool
  deriving DecidableEq

/-- Index of the directory entry for a linear address. -/
def dirIndex (v : Nat) : Nat := v / 2 ^ 22 % 1024

/-- Index of the page-table entry for a linear address. -/
def tableIndex (v : Nat) : Nat := v / 2 ^ 12 % 1024

/-- The page walk.  A page is a user page when both levels say so. -/
def walk (dir : Nat → Pde) (tables : BitVec 20 → Nat → Pte) (v : Nat) : Option Translation :=
  let pde := dir (dirIndex v)
  if pde.present then
    if pde.pageSize then
      some ⟨pde.pageTableAddr.toNat / 2 ^ 10 * 2 ^ 22 + v % 2 ^ 22, pde.userSupervisor⟩
    else
      let pte := tables pde.pageTableAddr (tableIndex v)
      if pte.present then
        some ⟨pte.pageAddr.toNat * 2 ^ 12 + v % 2 ^ 12, pde.userSupervisor && pte.userSupervisor⟩
      else none
  else none

variable {dir : Nat → Pde} {tables : BitVec 20 → Nat → Pte} {v : Nat}

/-- A present 4 MB page. -/
theorem walk_large {pde : Pde} (hpde : dir (dirIndex v) = pde) (hp : pde.present = true)
    (hs : pde.pageSize = true) :
    walk dir tables v =
      some ⟨pde.pageTableAddr.toNat / 2 ^ 10 * 2 ^ 22 + v % 2 ^ 22, pde.userSupervisor⟩ := by
  simp [walk, hpde, hp, hs]

/-- A present 4 KB page. -/
theorem walk_small {pde : Pde} {pte : Pte} (hpde : dir (dirIndex v) = pde)
    (hp : pde.present = true) (hs : pde.pageSize = false)
    (hpte : tables pde.pageTableAddr (tableIndex v) = pte) (hp' : pte.present = true) :
    walk dir tables v =
      some ⟨pte.pageAddr.toNat * 2 ^ 12 + v % 2 ^ 12,
        pde.userSupervisor && pte.userSupervisor⟩ := by
  simp [walk, hpde, hp, hs, hpte, hp']

/-- A directory entry that is not present. -/
theorem walk_not_present {pde : Pde} (hpde : dir (dirIndex v) = pde) (hp : pde.present = false) :
    walk dir tables v = none := by
  simp [walk, hpde, hp]

/-- A 4 KB page whose table entry is not present. -/
theorem walk_absent {pde : Pde} (hpde : dir (dirIndex v) = pde) (hs : pde.pageSize = false)
    (hpte : (tables pde.pageTableAddr (tableIndex v)).present = false) :
    walk dir tables v = none := by
  simp [walk, hpde, hs, hpte]

/-- What it takes for user mode to reach an address: a present user directory entry, and
for a 4 KB page a present user table entry as well. -/
theorem walk_user {phys : Nat} (h : walk dir tables v = some ⟨phys, true⟩) :
    (dir (dirIndex v)).present = true ∧ (dir (dirIndex v)).userSupervisor = true ∧
      (((dir (dirIndex v)).pageSize = true ∧
          phys = (dir (dirIndex v)).pageTableAddr.toNat / 2 ^ 10 * 2 ^ 22 + v % 2 ^ 22) ∨
        ((dir (dirIndex v)).pageSize = false ∧
          (tables (dir (dirIndex v)).pageTableAddr (tableIndex v)).present = true ∧
          phys = (tables (dir (dirIndex v)).pageTableAddr (tableIndex v)).pageAddr.toNat *
            2 ^ 12 + v % 2 ^ 12)) := by
  unfold walk at h
  by_cases hp : (dir (dirIndex v)).present = true
  · by_cases hs : (dir (dirIndex v)).pageSize = true
    · simp only [hp, hs, if_true, Option.some.injEq, Translation.mk.injEq] at h
      exact ⟨hp, h.2, .inl ⟨hs, h.1.symm⟩⟩
    · have hs' : (dir (dirIndex v)).pageSize = false := Bool.eq_false_of_not_eq_true hs
      by_cases hp' : (tables (dir (dirIndex v)).pageTableAddr (tableIndex v)).present = true
      · simp only [hp, hs', hp', if_true, Bool.false_eq_true, if_false, Option.some.injEq,
          Translation.mk.injEq, Bool.and_eq_true] at h
        exact ⟨hp, h.2.1, .inr ⟨hs', hp', h.1.symm⟩⟩
      · simp [hp, hs', hp'] at h
  · simp [hp] at h

end X86
end JuddOS
