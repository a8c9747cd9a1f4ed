import Mathlib.Data.List.Basic
import Mathlib.Tactic.Ring

/-!
# Regions of an address space

Addresses and lengths are numbers below `2 ^ 64`; where the server adds or subtracts them the result
is cut to 64 bits. The tree of the regions of a process is the list of them by address.
-/

namespace Gergios.Vm

def pageSize : Nat := 4096

def addressLimit : Nat := 2 ^ 64

def wrap (x : Nat) : Nat := x % addressLimit

theorem pageSize_pos : 0 < pageSize := by decide

theorem le_sub_pageSize {x : Nat} (hdvd : pageSize ∣ x) (hlt : x < addressLimit) :
    x ≤ addressLimit - pageSize := by
  unfold pageSize addressLimit at *
  omega

/-- `a - b` in 64 bits. -/
def wrapSub (a b : Nat) : Nat := wrap (a + (addressLimit - b))

inductive Stop where
  | assertion
  | panic
  | stray
  /-- An `int` overflows, and anything may happen. -/
  | overflow
deriving DecidableEq

/-- Where a region lies; the search for a free range reads nothing else of it. -/
structure VirRegion where
  vaddr : Nat
  length : Nat

def VirRegion.limit (r : VirRegion) : Nat := r.vaddr + r.length

/-- Page-aligned, not empty and below `dataTop`. -/
structure VirRegion.Placed (dataTop : Nat) (r : VirRegion) : Prop where
  vaddr_dvd : pageSize ∣ r.vaddr
  length_dvd : pageSize ∣ r.length
  length_pos : 0 < r.length
  limit_le : r.limit ≤ dataTop

structure WellPlaced (dataTop : Nat) (regions : List VirRegion) : Prop where
  placed : ∀ r ∈ regions, r.Placed dataTop
  disjoint : regions.Pairwise fun r s => r.limit ≤ s.vaddr

theorem WellPlaced.limit_le {dataTop : Nat} {regions : List VirRegion}
    (h : WellPlaced dataTop regions) {r s : VirRegion} (hr : r ∈ regions) (hs : s ∈ regions)
    (hlt : r.vaddr < s.vaddr) : r.limit ≤ s.vaddr := by
  refine List.Pairwise.forall_of_forall_of_flip
    (R := fun r s : VirRegion => r.vaddr < s.vaddr → r.limit ≤ s.vaddr) ?_ ?_ ?_ hr hs hlt
  · exact fun x _ hx => absurd hx (Nat.lt_irrefl _)
  · refine h.disjoint.imp fun {x y} hxy => ?_
    exact fun _ => hxy
  · refine h.disjoint.imp fun {x y} hxy hlt => ?_
    have : x.vaddr + x.length ≤ y.vaddr := hxy
    omega

/-- No region meets the `length` bytes from `a`. -/
def Clear (regions : List VirRegion) (a length : Nat) : Prop :=
  ∀ r ∈ regions, a + length ≤ r.vaddr ∨ r.limit ≤ a

end Gergios.Vm
