import Atalanta.ApbCfgRegs
import Atalanta.ApbMtimer.Time

/-! Accesses that are addressed to another completer. `apb_mtimer` and `apb_cfg_regs` read
`penable_i` but not `psel_i`, so it is the bus that has to keep other traffic from them. -/

namespace Atalanta.ApbSelection

open Clocked

variable {σ ο : Type}

def own (bus : Nat → ApbIn) (cycle : Nat) : ApbIn :=
  if (bus cycle).psel then bus cycle else .idle

structure IgnoresForeign (circuit : Circuit σ ApbIn ο) (apb : ο → ApbOut)
    (bus : Nat → ApbIn) : Prop where
  advance : ∀ cycle, (bus cycle).psel = false →
    circuit.run bus (cycle + 1) = circuit.next (circuit.run bus cycle) .idle
  prdata : ∀ cycle, (bus cycle).psel = false → (apb (circuit.outAt bus cycle)).prdata = 0
  pready : ∀ cycle, (bus cycle).psel = false → (apb (circuit.outAt bus cycle)).pready = false
  contents : ∀ cycle, circuit.run bus cycle = circuit.run (own bus) cycle

def Gated (bus : Nat → ApbIn) : Prop :=
  ∀ cycle, (bus cycle).psel = false → (bus cycle).penable = false

structure EnableGuarded (circuit : Circuit σ ApbIn ο) (apb : ο → ApbOut) : Prop where
  advance : ∀ state bus, bus.penable = false → circuit.next state bus = circuit.next state .idle
  prdata : ∀ state bus, bus.penable = false → (apb (circuit.out state bus)).prdata = 0
  pslverr : ∀ state bus, bus.penable = false → (apb (circuit.out state bus)).pslverr = false
  pready : ∀ state bus, (apb (circuit.out state bus)).pready = bus.penable

theorem EnableGuarded.ignoresForeign_iff {circuit : Circuit σ ApbIn ο} {apb : ο → ApbOut}
    (guarded : EnableGuarded circuit apb) (bus : Nat → ApbIn) :
    IgnoresForeign circuit apb bus ↔ Gated bus := by
  constructor
  · intro ignores cycle foreign
    rw [← guarded.pready (circuit.run bus cycle) (bus cycle)]
    exact ignores.pready cycle foreign
  · intro gated
    refine ⟨?_, ?_, ?_, ?_⟩
    · intro cycle foreign
      exact guarded.advance _ _ (gated cycle foreign)
    · intro cycle foreign
      exact guarded.prdata _ _ (gated cycle foreign)
    · intro cycle foreign
      exact (guarded.pready _ _).trans (gated cycle foreign)
    · intro cycle
      refine congrFun (circuit.run_congr fun before state => ?_) cycle
      unfold own
      split
      · rfl
      · rename_i foreign
        exact guarded.advance state _ (gated before (Bool.eq_false_iff.mpr foreign))

theorem mtimer_guarded : EnableGuarded ApbMtimer.circuit ApbMtimer.Output.toApbOut where
  advance state bus disabled := by
    have quiet : ApbMtimer.writes bus = false := by simp [ApbMtimer.writes, disabled]
    exact (ApbMtimer.next_of_quiet state bus quiet).trans
      (ApbMtimer.next_of_quiet state .idle rfl).symm
  prdata state bus disabled := by
    simp [ApbMtimer.circuit, ApbMtimer.out, ApbMtimer.apbAccess, ApbMtimer.idleAccess, disabled]
  pslverr _ _ _ := rfl
  pready _ _ := rfl

theorem cfgRegs_guarded (divDefault : Nat) :
    EnableGuarded (ApbCfgRegs.circuit divDefault) ApbCfgRegs.Output.toApbOut where
  advance state bus disabled := by
    simp [ApbCfgRegs.circuit, ApbCfgRegs.next, ApbCfgRegs.apbAccess, disabled, ApbIn.idle]
  prdata state bus disabled := by
    simp [ApbCfgRegs.circuit, ApbCfgRegs.out, ApbCfgRegs.apbAccess, disabled]
  pslverr _ _ _ := rfl
  pready _ _ := rfl

/-- Both completers ignore traffic addressed to others exactly on a bus that gates
`penable` with `psel`. -/
theorem foreign_traffic_ignored_iff (divDefault : Nat) (bus : Nat → ApbIn) :
    (IgnoresForeign ApbMtimer.circuit ApbMtimer.Output.toApbOut bus ↔ Gated bus) ∧
    (IgnoresForeign (ApbCfgRegs.circuit divDefault) ApbCfgRegs.Output.toApbOut bus ↔
      Gated bus) :=
  ⟨mtimer_guarded.ignoresForeign_iff bus, (cfgRegs_guarded divDefault).ignoresForeign_iff bus⟩

/-- The access phase of a write to the UART, as a bus shows it to the other completers
that gates `psel` but not `penable`. -/
def uartWrite (cycle : Nat) : ApbIn :=
  if cycle = 0 then ⟨false, true, true, 0x30100, 0x42⟩ else .idle

/-- A write to another peripheral moves `mtime` and reprograms the clock divider. -/
theorem foreign_write_taken :
    (uartWrite 0).psel = false ∧
      (ApbMtimer.circuit.run uartWrite 1).mtimeQ = 0x42 ∧
      ((ApbCfgRegs.circuit 1).run uartWrite 1).divQ = 2 ∧
      ¬IgnoresForeign ApbMtimer.circuit ApbMtimer.Output.toApbOut uartWrite ∧
      ¬IgnoresForeign (ApbCfgRegs.circuit 1) ApbCfgRegs.Output.toApbOut uartWrite := by
  refine ⟨rfl, by decide, by decide, ?_, ?_⟩
  · exact fun ignores => absurd (ignores.pready 0 rfl) (by decide)
  · exact fun ignores => absurd (ignores.pready 0 rfl) (by decide)

end Atalanta.ApbSelection
