import Gergios.Ext4.JournalBlocks
import Gergios.Ext4.JournalCalls

/-!
# Scanning and replaying a log with one transaction

The power can go at any call. Up to then the scan only reads, and the replay has made some of its
writes.
-/

namespace Gergios.Ext4

open Lib Nat

def OnlyCuts (answer : Nat → Option Halt) : Prop := ∀ c e, answer c = some e → e = .cut

def Fired (answer : Nat → Option Halt) (e : Halt) : Prop := ∃ c, answer c = some e

variable {answer : Nat → Option Halt} {d0 : Disk} {pos sequence : UInt32} {tags : List Jbd2BlockTag}

theorem succeeds_readJournalBlock (hcuts : OnlyCuts answer) {d : Disk} (h : Wrote d0 [] [] d)
    (b : Nat) : Outcome (succeeds (readJournalBlock answer b)) d
      (fun buf d' => buf = some (d0.log b) ∧ Wrote d0 [] [] d')
      (fun e d' => Fired answer e ∧ Wrote d0 [] [] d') := by
  have hsame : Wrote d [] [] { d with calls := d.calls + 1 } := .nil rfl rfl rfl rfl
  unfold Outcome succeeds readJournalBlock diskCall
  cases hans : answer d.calls with
  | none => exact ⟨congrArg (fun log => some (log b)) h.log, h.trans hsame⟩
  | some e =>
    obtain rfl := hcuts _ _ hans
    exact ⟨⟨_, hans⟩, h.trans hsame⟩

theorem writeJournalBlock_outcome (d : Disk) (b : Nat) (buf : List UInt8) :
    Outcome (writeJournalBlock answer b buf) d (fun _ d' => Wrote d [(b, buf)] [] d')
      (fun e d' => Fired answer e ∧ Wrote d [] [] d') := by
  obtain ⟨d', hrun, h⟩ | ⟨e, d', hrun, h, hans⟩ := writeJournalBlock_cases answer b buf d
  · rw [Outcome, hrun]
    exact h
  · rw [Outcome, hrun]
    exact ⟨⟨_, hans⟩, h⟩

theorem onDisk_bind {σ α β : Type} {m : EStateM Halt Disk α} {f : α → EStateM Halt (σ × Disk) β}
    {x : σ} {d : Disk} {R : α → Disk → Prop} {D : Halt → Disk → Prop} {Q : β → σ × Disk → Prop}
    {C : Halt → σ × Disk → Prop} (h : Outcome m d R D) (hC : ∀ e d', D e d' → C e (x, d'))
    (hf : ∀ a d', R a d' → Outcome (f a) (x, d') Q C) : Outcome (onDisk m >>= f) (x, d) Q C := by
  unfold Outcome at h
  cases hm : m d with
  | ok a d' =>
    rw [hm] at h
    exact Outcome.bind_ok (onDisk_ok hm) (hf a d' h)
  | error e d' =>
    rw [hm] at h
    rw [Outcome, run_bind_error (onDisk_error hm)]
    exact hC e d' h

/-! ### The scan -/

/-- From the devices of `d0`, which it leaves alone, the program finds what `P` says. -/
def Scans (answer : Nat → Option Halt) (d0 : Disk) (m : EStateM Halt Disk Scan)
    (P : Scan → Prop) : Prop :=
  ∀ d, Wrote d0 [] [] d → Outcome m d (fun t d' => P t ∧ Wrote d0 [] [] d')
    (fun e d' => Fired answer e ∧ Wrote d0 [] [] d')

section Steps

variable {sb : Jbd2Superblock} {maxlen first : UInt32} {advance : UInt32 → UInt32} {fuel : Nat}
  {s t : Scan} {r : ScanResult} {P : Scan → Prop}

theorem scanLog_stop (hcuts : OnlyCuts answer)
    (hscan : scanJournalBlock (d0.log ((first + s.pos) % maxlen).toNat) sb = .ok r)
    (hnote : s.note r = none) (h : P s) :
    Scans answer d0 (scanLog answer sb maxlen first advance (fuel + 1) s) P := by
  intro d hd
  apply (succeeds_readJournalBlock hcuts hd _).bind
  rintro _ d1 ⟨rfl, h1⟩
  dsimp only
  rw [hscan]
  dsimp only
  rw [hnote]
  exact Outcome.pure ⟨h, h1⟩

theorem scanLog_step (hcuts : OnlyCuts answer)
    (hscan : scanJournalBlock (d0.log ((first + s.pos) % maxlen).toNat) sb = .ok r)
    (hnote : s.note r = some t)
    (hlast : advance s.pos = sb.sStart → P { t with pos := advance s.pos })
    (hmore : advance s.pos ≠ sb.sStart → Scans answer d0
      (scanLog answer sb maxlen first advance fuel { t with pos := advance s.pos }) P) :
    Scans answer d0 (scanLog answer sb maxlen first advance (fuel + 1) s) P := by
  intro d hd
  apply (succeeds_readJournalBlock hcuts hd _).bind
  rintro _ d1 ⟨rfl, h1⟩
  dsimp only
  rw [hscan]
  dsimp only
  rw [hnote]
  dsimp only
  rcases eq_or_ne (advance s.pos) sb.sStart with heq | hne
  · rw [if_pos heq]
    exact Outcome.pure ⟨hlast heq, h1⟩
  · rw [if_neg hne]
    exact hmore hne d1 h1

end Steps

/-- The block of the device `i` blocks after the position `start`. -/
def slot (first maxlen start : UInt32) (i : Nat) : Nat :=
  (first.toNat + start.toNat + i) % maxlen.toNat

def Advances (maxlen : UInt32) (advance : UInt32 → UInt32) : Prop :=
  ∀ pos, pos.toNat < maxlen.toNat → (advance pos).toNat = (pos.toNat + 1) % maxlen.toNat

inductive Harmless : Except Stop ScanResult → Prop
  | commit (sequence : UInt32) : Harmless (.ok (.commit sequence))
  | invalidChecksum : Harmless (.ok .invalidChecksum)
  | other : Harmless (.ok .other)
  | ended : Harmless (.ok .ended)

theorem harmless_superblock {data : List UInt8} {sb' : Jbd2Superblock} (sb : Jbd2Superblock)
    (h : parseJournalSuperblock data = .ok sb') : Harmless (scanJournalBlock data sb) := by
  have hscan : scanJournalBlock data sb = .ok .other ∨ scanJournalBlock data sb = .ok .ended :=
    scan_superblock h
  obtain hscan | hscan := hscan
  · rw [hscan]
    exact .other
  · rw [hscan]
    exact .ended

section Circle

variable {sb : Jbd2Superblock} {maxlen first start : UInt32} {advance : UInt32 → UInt32}
  {s : Scan} {i : Nat}

theorem block_eq_slot (hfits : first.toNat + maxlen.toNat ≤ 2 ^ 32)
    (hstart : start.toNat < maxlen.toNat) (hpos : pos.toNat = (start.toNat + i) % maxlen.toNat) :
    ((first + pos) % maxlen).toNat = slot first maxlen start i := by
  have hlt := mod_lt (start.toNat + i) (show 0 < maxlen.toNat by omega)
  have hsum : first.toNat + pos.toNat < 2 ^ 32 := by omega
  rw [UInt32.toNat_mod, UInt32.toNat_add, mod_eq_of_lt hsum, hpos, slot, add_mod_mod, Nat.add_assoc]

theorem advance_eq (hadv : Advances maxlen advance)
    (hstart : start.toNat < maxlen.toNat) (hpos : pos.toNat = (start.toNat + i) % maxlen.toNat) :
    (advance pos).toNat = (start.toNat + (i + 1)) % maxlen.toNat := by
  have hlt := mod_lt (start.toNat + i) (show 0 < maxlen.toNat by omega)
  rw [hadv _ (by omega), hpos, mod_add_mod, Nat.add_assoc]

theorem scanLog_rest (hcuts : OnlyCuts answer) (hfits : first.toNat + maxlen.toNat ≤ 2 ^ 32)
    (hadv : Advances maxlen advance) (hstart : start.toNat < maxlen.toNat) {txs : List CommittedTx}
    (fuel : Nat) (hpos : s.pos.toNat = (start.toNat + i) % maxlen.toNat)
    (hout : s.inTransaction = false) (htxs : s.transactions = txs) (hrev : s.revokeSet = [])
    (hrest : ∀ k < fuel,
      Harmless (scanJournalBlock (d0.log (slot first maxlen start (i + k))) sb)) :
    Scans answer d0 (scanLog answer sb maxlen first advance fuel s)
      (fun t => t.transactions = txs ∧ t.revokeSet = []) := by
  induction fuel generalizing s i with
  | zero => exact fun _ hd => Outcome.pure ⟨⟨htxs, hrev⟩, hd⟩
  | succ fuel ih =>
    have hblock := block_eq_slot hfits hstart hpos
    have hnext := advance_eq hadv hstart hpos
    have hmore {t : Scan} (ht : t.inTransaction = false) (htx : t.transactions = txs)
        (htr : t.revokeSet = []) : Scans answer d0
          (scanLog answer sb maxlen first advance fuel { t with pos := advance s.pos })
          (fun t => t.transactions = txs ∧ t.revokeSet = []) := by
      refine ih hnext ht htx htr fun k hk => ?_
      have := hrest (k + 1) (by omega)
      rwa [show i + (k + 1) = i + 1 + k by omega] at this
    have hharm := hrest 0 (by omega)
    rw [Nat.add_zero, ← hblock] at hharm
    have hother : s.other = s := by rw [Scan.other, hout, if_neg (by decide)]
    generalize hscan : scanJournalBlock (d0.log ((first + s.pos) % maxlen).toNat) sb = r at hharm
    cases hharm with
    | invalidChecksum => exact scanLog_stop hcuts hscan rfl ⟨htxs, hrev⟩
    | commit sequence =>
      have htx : (s.commit sequence).transactions = txs := by
        rw [Scan.commit, hout]
        rw [if_neg (by simp), htxs]
      exact scanLog_step hcuts hscan rfl (fun _ => ⟨htx, hrev⟩) fun _ => hmore rfl htx hrev
    | other =>
      exact scanLog_step hcuts hscan (congrArg some hother) (fun _ => ⟨htxs, hrev⟩)
        fun _ => hmore hout htxs hrev
    | ended =>
      exact scanLog_step hcuts hscan (congrArg some hother) (fun _ => ⟨htxs, hrev⟩)
        fun _ => hmore hout htxs hrev

theorem add_mod_ne {a k m : Nat} (ha : a < m) (hk : 0 < k) (hkm : k < m) : (a + k) % m ≠ a := by
  rcases Nat.lt_or_ge (a + k) m with h | h
  · rw [mod_eq_of_lt h]
    omega
  · rw [mod_eq_sub_mod h, mod_eq_of_lt (by omega)]
    omega

theorem scanLog_data (hcuts : OnlyCuts answer) (hfits : first.toNat + maxlen.toNat ≤ 2 ^ 32)
    (hadv : Advances maxlen advance) (hstart : start.toNat < maxlen.toNat) (hsb : sb.sStart = start)
    {fuel : Nat} (left : Nat)
    (hpos : s.pos.toNat = (start.toNat + i) % maxlen.toNat) (hfuel : i + fuel = maxlen.toNat)
    (hroom : left < fuel) (hin : s.inTransaction = true) (hseq : s.currentSeq = sequence)
    (htags : s.currentTags = tags) (hat : s.descriptorPos = start) (htxs : s.transactions = [])
    (hrev : s.revokeSet = []) (hsmall : tags.length < 2 ^ 31)
    (hsince : s.blocksSinceDescriptor.toNat + left ≤ tags.length) (hdata : ∀ k < left,
      scanJournalBlock (d0.log (slot first maxlen start (i + k))) sb = .ok .other)
    (hcommit : scanJournalBlock (d0.log (slot first maxlen start (i + left))) sb =
      .ok (.commit sequence)) (hrest : ∀ k, left < k → k < fuel →
      Harmless (scanJournalBlock (d0.log (slot first maxlen start (i + k))) sb)) :
    Scans answer d0 (scanLog answer sb maxlen first advance fuel s)
      (fun t => t.transactions = [⟨start, tags⟩] ∧ t.revokeSet = []) := by
  induction left generalizing s i fuel with
  | zero =>
    obtain ⟨fuel, rfl⟩ := exists_eq_succ_of_ne_zero (show fuel ≠ 0 by omega)
    have hblock := block_eq_slot hfits hstart hpos
    rw [Nat.add_zero, ← hblock] at hcommit
    have htx : (s.commit sequence).transactions = [⟨start, tags⟩] := by
      rw [Scan.commit, hin, hseq, htxs, hat, htags]
      exact if_pos ⟨rfl, rfl⟩
    refine scanLog_step hcuts hcommit rfl (fun _ => ⟨htx, hrev⟩) fun _ => ?_
    refine scanLog_rest hcuts hfits hadv hstart fuel (advance_eq hadv hstart hpos) rfl htx hrev
      fun k hk => ?_
    have := hrest (k + 1) (by omega) (by omega)
    rwa [show i + (k + 1) = i + 1 + k by omega] at this
  | succ left ih =>
    obtain ⟨fuel, rfl⟩ := exists_eq_succ_of_ne_zero (show fuel ≠ 0 by omega)
    have hblock := block_eq_slot hfits hstart hpos
    have hnext := advance_eq hadv hstart hpos
    have hscan := hdata 0 (by omega)
    rw [Nat.add_zero, ← hblock] at hscan
    have hadd : (s.blocksSinceDescriptor + 1).toNat = s.blocksSinceDescriptor.toNat + 1 := by
      rw [UInt32.toNat_add, UInt32.toNat_one]
      omega
    have hother : s.other = { s with blocksSinceDescriptor := s.blocksSinceDescriptor + 1 } := by
      rw [Scan.other, hin, if_pos rfl]
      rw [if_neg]
      intro hgt
      have := UInt32.lt_iff_toNat_lt.mp hgt
      have htwo : (2 : UInt32).toNat = 2 := rfl
      rw [UInt32.toNat_add, UInt32.toNat_ofNat', htags] at this
      omega
    refine scanLog_step hcuts hscan (congrArg some hother) (fun heq => ?_) fun _ => ?_
    · rw [heq, hsb] at hnext
      exact absurd hnext.symm (add_mod_ne hstart (by omega) (by omega))
    · refine ih hnext (by omega) (by omega) hin hseq htags hat htxs hrev ?_ (fun k hk => ?_) ?_
        fun k hk hk' => ?_
      · dsimp only
        omega
      · have := hdata (k + 1) (by omega)
        rwa [show i + (k + 1) = i + 1 + k by omega] at this
      · rwa [show i + (left + 1) = i + 1 + left by omega] at hcommit
      · have := hrest (k + 1) (by omega) (by omega)
        rwa [show i + (k + 1) = i + 1 + k by omega] at this

/-- A log that holds one transaction from `s_start` on, and nothing else that the scan takes up. -/
structure HoldsTx (log : Nat → List UInt8) (sb : Jbd2Superblock)
    (first maxlen start sequence : UInt32) (tags : List Jbd2BlockTag) : Prop where
  start_eq : sb.sStart = start
  start_lt : start.toNat < maxlen.toNat
  size : tags.length + 2 ≤ maxlen.toNat
  small : tags.length < 2 ^ 31
  descriptor : scanJournalBlock (log (slot first maxlen start 0)) sb =
    .ok (.descriptor sequence tags)
  data : ∀ k < tags.length, scanJournalBlock (log (slot first maxlen start (1 + k))) sb = .ok .other
  commit : scanJournalBlock (log (slot first maxlen start (1 + tags.length))) sb =
    .ok (.commit sequence)
  rest : ∀ k, 1 + tags.length < k → k < maxlen.toNat →
    Harmless (scanJournalBlock (log (slot first maxlen start k)) sb)

theorem scanLog_tx (hcuts : OnlyCuts answer) (hfits : first.toNat + maxlen.toNat ≤ 2 ^ 32)
    (hadv : Advances maxlen advance) (h : HoldsTx d0.log sb first maxlen start sequence tags) :
    Scans answer d0 (scanLog answer sb maxlen first advance maxlen.toNat { pos := sb.sStart })
      (fun t => t.transactions = [⟨start, tags⟩] ∧ t.revokeSet = []) := by
  have hsize := h.size
  have hpos : ({ pos := sb.sStart } : Scan).pos.toNat = (start.toNat + 0) % maxlen.toNat := by
    rw [h.start_eq, Nat.add_zero, mod_eq_of_lt h.start_lt]
  obtain ⟨fuel, hfuel⟩ := exists_eq_succ_of_ne_zero (show maxlen.toNat ≠ 0 by omega)
  have hblock := block_eq_slot hfits h.start_lt hpos
  have hnext := advance_eq hadv h.start_lt hpos
  rw [hfuel]
  refine scanLog_step hcuts (hblock ▸ h.descriptor) rfl (fun heq => ?_) fun _ => ?_
  · rw [heq, h.start_eq] at hnext
    exact absurd hnext.symm (add_mod_ne h.start_lt (by omega) (by omega))
  · refine scanLog_data hcuts hfits hadv h.start_lt h.start_eq tags.length hnext (by omega)
      (by omega) rfl rfl rfl h.start_eq rfl rfl h.small ?_ h.data h.commit fun k hk hk' => ?_
    · exact (Nat.zero_add _).le
    · exact h.rest (0 + 1 + k) (by omega) (by omega)

end Circle

/-! ### The replay -/

theorem writeFsBlock_outcome (d : Disk) (b : Nat) (buf : List UInt8) :
    Outcome (writeFsBlock answer b buf) d (fun _ d' => Wrote d [] [(b, buf)] d')
      (fun e d' => Fired answer e ∧ Wrote d [] [] d') := by
  unfold Outcome writeFsBlock diskCall
  cases hans : answer d.calls with
  | none => exact ⟨rfl, (List.append_nil _).symm, rfl, rfl⟩
  | some e => exact ⟨⟨_, hans⟩, .nil rfl rfl rfl rfl⟩

def replayed (log : Nat → List UInt8) (address : Nat → Nat) :
    List Jbd2BlockTag → Nat → List (Nat × List UInt8)
  | [], _ => []
  | tag :: rest, i =>
    (tag.blockNumber.toNat, blockImage tag.tFlags (log (address i))) ::
      replayed log address rest (i + 1)

theorem replayTags_outcome (hcuts : OnlyCuts answer) (address : Nat → Nat)
    (tags : List Jbd2BlockTag) (i : Nat) (n : UInt32) (d : Disk) :
    Outcome (replayTags answer [] address tags i n) d
      (fun _ d' => Wrote d [] (replayed d.log address tags i) d') (fun e d' => Fired answer e ∧
        ∃ k, Wrote d [] ((replayed d.log address tags i).take k) d') := by
  induction tags generalizing i n d with
  | nil => exact Outcome.pure (.refl d)
  | cons tag rest ih =>
    apply Outcome.bind ((succeeds_readJournalBlock hcuts (.refl d) (address i)).mono
      (fun _ _ h => h) fun e d' h => ⟨h.1, 0, h.2⟩)
    rintro _ d1 ⟨rfl, h1⟩
    apply Outcome.bind ((writeFsBlock_outcome d1 tag.blockNumber.toNat
      (blockImage tag.tFlags (d.log (address i)))).mono (fun _ _ h => h1.trans h)
      fun e d' h => ⟨h.1, 0, h1.trans h.2⟩)
    intro _ d2 h2
    have hlog2 : d2.log = d.log := h2.log
    have hrest := ih (i + 1) (n + 1) d2
    rw [hlog2] at hrest
    exact hrest.mono (fun _ _ h => h2.trans h)
      fun e d' ⟨hfired, k, h⟩ => ⟨hfired, k + 1, h2.trans h⟩

theorem replay_outcome (hcuts : OnlyCuts answer) (address : UInt32 → Nat → Nat) (tx : CommittedTx)
    (n : UInt32) (d : Disk) : Outcome (replay answer [] address [tx] n) d
      (fun _ d' => Wrote d [] (replayed d.log (address tx.descriptorPos) tx.tags 0) d')
      (fun e d' => Fired answer e ∧
        ∃ k, Wrote d [] ((replayed d.log (address tx.descriptorPos) tx.tags 0).take k) d') :=
  (replayTags_outcome hcuts (address tx.descriptorPos) tx.tags 0 n d).bind fun _ _ h => h

end Gergios.Ext4
