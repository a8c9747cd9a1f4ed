import Mathlib.Data.Fintype.Sum
import Gergios.Kernel.Config
import Gergios.Kernel.Irq.LineRuns

/-!
# Interrupt requests of drivers

`do_irqctl` with the MSI-X vectors of `msix.c` and the window of `irq_thread.c` onto the registers
of devices, and the part of `do_clear` that releases the hooks of a process.
-/

namespace Gergios.Kernel.Irq

open Function

abbrev nrIrqHooks : Nat := 128

abbrev nrMsixIrqs : Nat := 16

abbrev msixIrqBase : Nat := 48

/-- An index into `irq_hooks`. -/
abbrev HookId := Fin nrIrqHooks

abbrev Vector := Fin nrMsixIrqs

def msixIrq (i : Vector) : Line := ⟨msixIrqBase + i, Nat.add_lt_add_left i.isLt msixIrqBase⟩

/-- The index of an IRQ among the vectors, if `IS_MSIX_IRQ` holds of it. -/
def msixIdx (irq : Int) : Option Vector :=
  if h : msixIrqBase ≤ irq ∧ irq < msixIrqBase + nrMsixIrqs then
    some ⟨(irq - msixIrqBase).toNat, by omega⟩
  else none

/-! ## The page tables -/

/-- An entry of `pagedir`: nothing, a page of 2 MB or a page table. -/
inductive Pde where
  | absent
  | large (base : Nat)
  | table (pt : Fin 512 → Option Nat)

abbrev PageDir := Fin 512 → Pde

def pageSize : Nat := 4096

def vmPml4e (vaddr : Nat) : Fin 512 := Fin.ofNat 512 (vaddr / 2 ^ 39)

def vmPdpe (vaddr : Nat) : Fin 512 := Fin.ofNat 512 (vaddr / 2 ^ 30)

def vmPde (vaddr : Nat) : Fin 512 := Fin.ofNat 512 (vaddr / 2 ^ 21)

def vmPte (vaddr : Nat) : Fin 512 := Fin.ofNat 512 (vaddr / pageSize)

/-- `phys & X86_64_VM_ADDR_MASK` -/
def vmPfa (phys : Nat) : Nat := phys % 2 ^ 52 / pageSize * pageSize

variable (dir : PageDir)

/-- The lower two of the four levels, from `pagedir` on. -/
def walk (vaddr : Nat) : Option Nat :=
  match dir (vmPde vaddr) with
  | .absent => none
  | .large base => some (base + vaddr % 2 ^ 21)
  | .table pt => (pt (vmPte vaddr)).map (· + vaddr % pageSize)

/-- The upper two levels, which none of the functions here change: which entries lead to `pagedir`,
and what the processor makes of an address under any other entries. -/
structure Upper where
  toPagedir : Fin 512 → Fin 512 → Bool
  elsewhere : PageDir → Nat → Option Nat

def translate (up : Upper) (dir : PageDir) (vaddr : Nat) : Option Nat :=
  if up.toPagedir (vmPml4e vaddr) (vmPdpe vaddr) then walk dir vaddr else up.elsewhere dir vaddr

/-- The store into a page table. A page of 2 MB is taken for a table as well: the store then goes
to the memory of that page, and no mapping changes. -/
def setPte (vaddr : Nat) (pte : Option Nat) : PageDir :=
  match dir (vmPde vaddr) with
  | .table pt =>
    update dir (vmPde vaddr) (.table (update pt (vmPte vaddr) pte))
  | _ => dir

def pgRemapPage (vaddr phys : Nat) : Except Errno PageDir :=
  match dir (vmPde vaddr) with
  | .absent => .error .efault
  | _ => .ok (setPte dir vaddr (some (vmPfa phys)))

def pgUnmapPage (vaddr : Nat) : PageDir := setPte dir vaddr none

/-! ## The state -/

/-- `struct irq_thread_mmio` -/
structure Mmio where
  valid : Bool
  physAddr : Nat
  virtAddr : Nat

/-- `K` are the hooks of the kernel itself. `procNrE` is `noneE` for a free hook; `pagetables` is
what `alloc_pagetable` has left. -/
structure IrqState (K : Type) where
  lines : Lines (HookId ⊕ K)
  procNrE : HookId → Endpoint
  notifyId : HookId → Nat
  msixBitmap : Vector → Bool
  registered : Line → Bool
  mmio : Line → Mmio
  pagedir : PageDir
  pagetables : Nat
  live : Endpoint → Bool

section Model

variable {K : Type} (s : IrqState K)

def msixAllocIrq : Option (IrqState K × Line) :=
  match (List.finRange nrMsixIrqs).find? fun i => !s.msixBitmap i with
  | none => none
  | some i => some ({ s with msixBitmap := update s.msixBitmap i true }, msixIrq i)

def msixFreeIrq (i : Vector) : IrqState K :=
  { s with msixBitmap := update s.msixBitmap i false }

def irqThreadMmioBase : Nat := 0xFFFFF000

def irqThreadMmioPages : Nat := 4

variable (irq : Line)

def mmioAddr : Nat := irqThreadMmioBase + irq % irqThreadMmioPages * pageSize

def ensureTable (vaddr : Nat) : Except Fault (IrqState K) :=
  match s.pagedir (vmPde vaddr) with
  | .absent =>
    match s.pagetables with
    | 0 => .error .panic
    | n + 1 => .ok { s with
        pagedir := update s.pagedir (vmPde vaddr) (.table fun _ => none)
        pagetables := n }
  | _ => .ok s

def irqThreadSetMmio (phys : Nat) : Except Fault (IrqState K × Except Errno Unit) :=
  match ensureTable s (mmioAddr irq) with
  | .error f => .error f
  | .ok s =>
    match pgRemapPage s.pagedir (mmioAddr irq) phys with
    | .error e => .ok (s, .error e)
    | .ok dir => .ok ({ s with
        pagedir := dir
        mmio := update s.mmio irq ⟨true, phys, mmioAddr irq⟩ }, .ok ())

def irqThreadRegister : IrqState K :=
  { s with registered := update s.registered irq true }

def irqThreadUnregister : IrqState K :=
  let s := { s with registered := update s.registered irq false }
  if (s.mmio irq).valid then
    { s with
      pagedir := if (s.mmio irq).virtAddr ≠ 0 then pgUnmapPage s.pagedir (s.mmio irq).virtAddr
        else s.pagedir
      mmio := update s.mmio irq ⟨false, 0, 0⟩ }
  else s

/-- The address of the status register that `irq_thread_device_handler` reads and clears, as the
processor translates it; `none` if it leaves the device alone. -/
def deviceRegister (up : Upper) (s : IrqState K) (irq : Line) : Option (Option Nat) :=
  if (s.mmio irq).valid = true ∧ (s.mmio irq).virtAddr ≠ 0 then
    some (translate up s.pagedir ((s.mmio irq).virtAddr + 2 * 4))
  else none

/-- The addresses of the window lead to `pagedir`, where the code has its entries for them. -/
def Upper.ShowsWindow (up : Upper) : Prop :=
  ∀ irq, up.toPagedir (vmPml4e (mmioAddr irq)) (vmPdpe (mmioAddr irq)) = true

/-! ## Requests -/

/-- What `IRQ_SETPOLICY` reads of the privilege structure: `irqTab` is the table to check the line
against, with `CHECK_IRQ`. -/
structure IrqPriv where
  checkIrq : Bool
  irqTab : List Int

inductive IrqRequest where
  | enable (hookId : Int)
  | disable (hookId : Int)
  | setPolicy (vec notify : Int)
  | rmPolicy (hookId : Int)
  | msixAlloc
  | msixFree (vec : Int)
  | msixSetPolicy (vec notify : Int)
  | threadSetMmio (vec : Int) (policy : BitVec 32)

/-- The result and, where there is one, the `hook_id` of the reply. -/
abbrev Reply := Except Errno (Option Nat)

def ownedHook (caller : Endpoint) (hookId : Int) : Except Errno HookId :=
  if h : 0 ≤ hookId - 1 ∧ hookId - 1 < nrIrqHooks then
    let i : HookId := ⟨(hookId - 1).toNat, by omega⟩
    if s.procNrE i = noneE then .error .einval
    else if s.procNrE i ≠ caller then .error .eperm
    else .ok i
  else .error .einval

/-- `notify_id` is compared with an unsigned bound, so a negative one is too large. -/
def toNotifyId (notify : Int) : Option Nat :=
  if 0 ≤ notify ∧ notify ≤ 63 then some notify.toNat else none

def mayUse (priv : IrqPriv) (vec : Int) : Bool := !priv.checkIrq || priv.irqTab.contains vec

def existingHook (caller : Endpoint) (notifyId : Nat) : Option HookId :=
  (List.finRange nrIrqHooks).find? fun i =>
    decide (s.procNrE i = caller ∧ s.notifyId i = notifyId)

def freeHook : Option HookId :=
  (List.finRange nrIrqHooks).find? fun i => decide (s.procNrE i = noneE)

def freeVectorOf (i : HookId) : IrqState K :=
  match msixIdx (s.lines.hook (.inl i)).irq with
  | some v => if s.msixBitmap v then msixFreeIrq s v else s
  | none => s

variable [DecidableEq K] [Fintype K]

def putMsixHandler (s : Lines (HookId ⊕ K)) (h : HookId ⊕ K) (irq : Line) :
    Except Fault (Lines (HookId ⊕ K)) :=
  match addHook s h irq with
  | .error e => .error e
  | .ok none => .ok s
  | .ok (some t) => .ok t

def takeHook (s : IrqState K) (caller : Endpoint) (notifyId : Nat) :
    Except Fault (Option (Lines (HookId ⊕ K) × HookId)) :=
  match existingHook s caller notifyId with
  | some i =>
    match rmIrqHandler s.lines (.inl i) with
    | .error f => .error f
    | .ok l => .ok (some (l, i))
  | none => .ok ((freeHook s).map fun i => (s.lines, i))

/-- What the two requests for a policy have in common; `put` installs the handler. -/
def bindHook (put : Lines (HookId ⊕ K) → HookId ⊕ K → Except Fault (Lines (HookId ⊕ K)))
    (s : IrqState K) (caller : Endpoint) (notifyId : Nat) :
    Except Fault (Option (IrqState K × HookId)) :=
  match takeHook s caller notifyId with
  | .error f => .error f
  | .ok none => .ok none
  | .ok (some (l, i)) =>
    match put l (.inl i) with
    | .error f => .error f
    | .ok l => .ok (some ({ s with
        lines := l
        procNrE := update s.procNrE i caller
        notifyId := update s.notifyId i notifyId }, i))

def doSetPolicy (s : IrqState K) (caller : Endpoint) (priv : Option IrqPriv) (vec notify : Int) :
    Except Fault (IrqState K × Reply) :=
  match toLine vec, priv with
  | .error _, _ => .ok (s, .error .einval)
  | .ok _, none => .ok (s, .error .eperm)
  | .ok irq, some priv =>
    if mayUse priv vec then
      match toNotifyId notify with
      | none => .ok (s, .error .einval)
      | some notifyId =>
        match bindHook (fun l h => putIrqHandler l h irq.val) s caller notifyId with
        | .error f => .error f
        | .ok none => .ok (s, .error .enospc)
        | .ok (some (s, i)) => .ok (irqThreadRegister s irq, .ok (some (i + 1)))
    else .ok (s, .error .eperm)

def doRmPolicy (s : IrqState K) (caller : Endpoint) (hookId : Int) :
    Except Fault (IrqState K × Reply) :=
  match ownedHook s caller hookId with
  | .error e => .ok (s, .error e)
  | .ok i =>
    match rmIrqHandler s.lines (.inl i) with
    | .error f => .error f
    | .ok l =>
      let s := { s with lines := l, procNrE := update s.procNrE i noneE }
      .ok (irqThreadUnregister s (s.lines.hook (.inl i)).irq, .ok none)

def doMsixAlloc : IrqState K × Reply :=
  match msixAllocIrq s with
  | none => (s, .error .enospc)
  | some (s, irq) => (s, .ok (some (irq + 1)))

def doMsixFree (vec : Int) : IrqState K × Reply :=
  match msixIdx vec with
  | none => (s, .error .einval)
  | some i => if s.msixBitmap i then (msixFreeIrq s i, .ok none) else (s, .error .einval)

def doMsixSetPolicy (s : IrqState K) (caller : Endpoint) (priv : Option IrqPriv)
    (vec notify : Int) : Except Fault (IrqState K × Reply) :=
  match msixIdx vec with
  | none => .ok (s, .error .einval)
  | some v =>
    if s.msixBitmap v then
      match priv, toNotifyId notify with
      | none, _ => .ok (s, .error .eperm)
      | some _, none => .ok (s, .error .einval)
      | some _, some notifyId =>
        match bindHook (fun l h => putMsixHandler l h (msixIrq v)) s caller notifyId with
        | .error f => .error f
        | .ok none => .ok (s, .error .enospc)
        | .ok (some (s, i)) => .ok (s, .ok (some (i + 1)))
    else .ok (s, .error .einval)

def doThreadSetMmio (vec : Int) (policy : BitVec 32) : Except Fault (IrqState K × Reply) :=
  match toLine vec with
  | .error _ => .ok (s, .error .einval)
  | .ok irq =>
    if policy = 0 then .ok (s, .error .einval)
    else
      match irqThreadSetMmio s irq policy.toNat with
      | .error f => .error f
      | .ok (s, .error e) => .ok (s, .error e)
      | .ok (s, .ok ()) => .ok (s, .ok none)

def doIrqctl (s : IrqState K) (caller : Endpoint) (priv : Option IrqPriv) :
    IrqRequest → Except Fault (IrqState K × Reply)
  | .enable hookId =>
    match ownedHook s caller hookId with
    | .error e => .ok (s, .error e)
    | .ok i => .ok ({ s with lines := enableIrq s.lines (.inl i) }, .ok none)
  | .disable hookId =>
    match ownedHook s caller hookId with
    | .error e => .ok (s, .error e)
    | .ok i => .ok ({ s with lines := disableIrq s.lines (.inl i) }, .ok none)
  | .setPolicy vec notify => doSetPolicy s caller priv vec notify
  | .rmPolicy hookId => doRmPolicy s caller hookId
  | .msixAlloc => .ok (doMsixAlloc s)
  | .msixFree vec => .ok (doMsixFree s vec)
  | .msixSetPolicy vec notify => doMsixSetPolicy s caller priv vec notify
  | .threadSetMmio vec policy => doThreadSetMmio s vec policy

/-- The loop of `do_clear` over the hooks. -/
def clearHooks (e : Endpoint) : List HookId → IrqState K → Except Fault (IrqState K)
  | [], s => .ok s
  | i :: is, s =>
    if s.procNrE i = e then
      let s := freeVectorOf s i
      match rmIrqHandler s.lines (.inl i) with
      | .error f => .error f
      | .ok l =>
        clearHooks e is { s with lines := l, procNrE := update s.procNrE i noneE }
    else clearHooks e is s

def doClear (s : IrqState K) (e : Endpoint) : Except Fault (IrqState K × Reply) :=
  if s.live e then
    match clearHooks e (List.finRange nrIrqHooks) s with
    | .error f => .error f
    | .ok s => .ok ({ s with live := update s.live e false }, .ok none)
  else .ok (s, .error .einval)

end Model

end Gergios.Kernel.Irq
