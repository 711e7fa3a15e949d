import Atalanta.Interconnect.Links
import Atalanta.Interconnect.RtPkg

/-! The parameters `CutMgrPorts` and `CutSbrPorts` of `rt_interconnect.sv`: what they do to the
requests that enter the crossbar and to the responses that its ports return. -/

namespace Atalanta.ObiLink

open Clocked Elastic Handshake RtPkg

structure Config where
  cutMgrPorts : Bool
  cutSbrPorts : Bool
deriving DecidableEq, Repr

inductive SbrPort
  | core
  | dbg
  | axi
  | dmaRd (dma : Fin numDMAs)
  | dmaWr (dma : Fin numDMAs)
deriving DecidableEq, Repr

inductive MgrPort
  | core
  | dbgRom
  | apb
  | axi
  | dma
  | sram (bank : Fin numMemBanks)
deriving DecidableEq, Repr

variable (spillRegister : (T : Type) → [Inhabited T] → Buffer T) (config : Config)

-- all instances of `g_no_sbr_cut` have the bus of the crossbar as `Src`
def sbrLink (_port : SbrPort) : Link :=
  if config.cutSbrPorts then obiCut spillRegister else obiJoinReversed

def mgrLink (_port : MgrPort) : Link :=
  if config.cutMgrPorts then obiCut spillRegister else obiJoin

structure Transaction where
  request : AChan
  answer : RChan
deriving DecidableEq, Repr

structure Passed where
  port : SbrPort
  index : Nat
  transaction : Transaction
deriving DecidableEq, Repr

/-- A run of the interconnect on given transactions. The crossbar passes each request that enters
it to the port that `route` says, in any order, and answers it with what it receives there, in
the order of the requests. What the devices answer, the SRAM banks inside the module among them, is
part of the transactions. -/
structure NetworkRun (route : AChan → MgrPort) (traffic : SbrPort → List Transaction) where
  sbrInput : SbrPort → Nat → LinkIn
  mgrInput : MgrPort → Nat → LinkIn
  enteredAt : SbrPort → List AChan
  answers : SbrPort → List RChan
  returnedAt : SbrPort → List RChan
  served : MgrPort → List Passed
  received : MgrPort → List RChan
  sbrExchange : ∀ port, Exchange (sbrLink spillRegister config port)
    ((traffic port).map Transaction.request) (answers port) (sbrInput port)
  enters : ∀ port,
    Settles (entered (sbrLink spillRegister config port) (sbrInput port)) (enteredAt port)
  returns : ∀ port,
    Settles (returned (sbrLink spillRegister config port) (sbrInput port)) (returnedAt port)
  mgrExchange : ∀ port, Exchange (mgrLink spillRegister config port)
    ((served port).map fun passed => passed.transaction.request)
    ((served port).map fun passed => passed.transaction.answer) (mgrInput port)
  receives : ∀ port,
    Settles (returned (mgrLink spillRegister config port) (mgrInput port)) (received port)
  passes : ∀ (port : MgrPort) (passed : Passed), passed ∈ served port ↔
    (enteredAt passed.port)[passed.index]? = some passed.transaction.request ∧
      (traffic passed.port)[passed.index]? = some passed.transaction ∧
      route passed.transaction.request = port
  once : ∀ port, (served port).Nodup
  answersAll : ∀ port, (answers port).length = (enteredAt port).length
  answersOwn : ∀ (port : MgrPort) (place : Nat) (passed : Passed),
    (served port)[place]? = some passed →
    (answers passed.port)[passed.index]? = (received port)[place]?

def view (r : RChan) : RChan := if config.cutMgrPorts then r else r.joined

section Runs

variable {spillRegister config}
  {contents : (T : Type) → [Inhabited T] → (spillRegister T).State → List T}
  (lossless : ∀ (T : Type) [Inhabited T], (spillRegister T).Lossless 2 (contents T))
  {route : AChan → MgrPort} {traffic : SbrPort → List Transaction}
  (run : NetworkRun spillRegister config route traffic)

include lossless

theorem received_eq (port : MgrPort) :
    run.received port =
      (run.served port).map fun passed => view config passed.transaction.answer := by
  have receives := run.receives port
  have exchange := run.mgrExchange port
  unfold mgrLink at receives exchange
  cases cut : config.cutMgrPorts with
  | true =>
      rw [cut] at receives exchange
      have settles := obiCut_returned lossless exchange (by simp)
      simpa [view, cut] using receives.unique settles
  | false =>
      rw [cut] at receives exchange
      have settles := obiJoin_returned exchange (by simp)
      simpa [view, cut, Function.comp_def] using receives.unique settles

theorem entered_cut (cut : config.cutSbrPorts = true) (port : SbrPort) :
    run.enteredAt port = (traffic port).map Transaction.request := by
  have enters := run.enters port
  have exchange := run.sbrExchange port
  unfold sbrLink at enters exchange
  rw [cut] at enters exchange
  exact enters.unique (obiCut_entered lossless exchange)

theorem answers_cut (cut : config.cutSbrPorts = true) (port : SbrPort) :
    run.answers port =
      (traffic port).map fun transaction => view config transaction.answer := by
  have entering := entered_cut lossless run cut port
  have all : (run.answers port).length = (traffic port).length := by
    rw [run.answersAll port, entering, List.length_map]
  refine List.ext_getElem? fun index => ?_
  cases present : (traffic port)[index]? with
  | none =>
      have beyond := List.getElem?_eq_none_iff.mp present
      rw [List.getElem?_eq_none_iff.mpr (by omega), List.getElem?_map, present]
      rfl
  | some transaction =>
      have passed : (⟨port, index, transaction⟩ : Passed) ∈
          run.served (route transaction.request) := by
        refine (run.passes _ _).mpr ⟨?_, present, rfl⟩
        rw [entering, List.getElem?_map, present]
        rfl
      obtain ⟨place, found⟩ := List.mem_iff_getElem?.mp passed
      rw [run.answersOwn _ place _ found, received_eq lossless run, List.getElem?_map, found,
        List.getElem?_map, present]
      rfl

theorem returned_cut (cut : config.cutSbrPorts = true) (port : SbrPort) :
    run.returnedAt port =
      (traffic port).map fun transaction => view config transaction.answer := by
  have returns := run.returns port
  have exchange := run.sbrExchange port
  have answers := answers_cut lossless run cut port
  unfold sbrLink at returns exchange
  rw [cut] at returns exchange
  have matched : (run.answers port).length = ((traffic port).map Transaction.request).length := by
    rw [answers, List.length_map, List.length_map]
  rw [← answers]
  exact returns.unique (obiCut_returned lossless exchange matched)

omit lossless in
theorem entered_join (uncut : config.cutSbrPorts = false) (port : SbrPort) :
    run.enteredAt port = [] := by
  have enters := run.enters port
  unfold sbrLink at enters
  rw [uncut] at enters
  exact enters.unique (obiJoinReversed_entered _)

omit lossless in
theorem returned_join (uncut : config.cutSbrPorts = false) (port : SbrPort) :
    run.returnedAt port = [] := by
  have returns := run.returns port
  unfold sbrLink at returns
  rw [uncut] at returns
  exact returns.unique (obiJoinReversed_returned _)

end Runs

/-! Every traffic has a run in every configuration. -/

def allPorts : List SbrPort :=
  [.core, .dbg, .axi] ++ (List.finRange numDMAs).flatMap fun dma => [.dmaRd dma, .dmaWr dma]

theorem mem_allPorts (port : SbrPort) : port ∈ allPorts := by
  cases port <;> simp [allPorts]

def passedAt (traffic : SbrPort → List Transaction) (port : SbrPort) : List Passed :=
  (traffic port).zipIdx.map fun indexed => ⟨port, indexed.2, indexed.1⟩

theorem mem_passedAt {traffic : SbrPort → List Transaction} {port : SbrPort} {passed : Passed} :
    passed ∈ passedAt traffic port ↔
      passed.port = port ∧ (traffic port)[passed.index]? = some passed.transaction := by
  simp only [passedAt, List.mem_map, Prod.exists, List.mem_zipIdx_iff_getElem?]
  constructor
  · rintro ⟨transaction, index, present, rfl⟩
    exact ⟨rfl, present⟩
  · rintro ⟨rfl, present⟩
    exact ⟨passed.transaction, passed.index, present, rfl⟩

theorem passedAt_nodup (traffic : SbrPort → List Transaction) (port : SbrPort) :
    (passedAt traffic port).Nodup := by
  refine List.Nodup.of_map Passed.index ?_
  rw [passedAt, List.map_map]
  have indices : (Passed.index ∘ fun indexed : Transaction × Nat =>
      (⟨port, indexed.2, indexed.1⟩ : Passed)) = Prod.snd := rfl
  rw [indices, List.zipIdx_map_snd]
  exact List.nodup_range'

def portByPort (route : AChan → MgrPort) (traffic : SbrPort → List Transaction) (port : MgrPort) :
    List Passed :=
  (allPorts.flatMap (passedAt traffic)).filter fun passed =>
    route passed.transaction.request = port

theorem mem_portByPort {route : AChan → MgrPort} {traffic : SbrPort → List Transaction}
    {port : MgrPort} {passed : Passed} :
    passed ∈ portByPort route traffic port ↔
      (traffic passed.port)[passed.index]? = some passed.transaction ∧
        route passed.transaction.request = port := by
  simp only [portByPort, List.mem_filter, List.mem_flatMap, mem_passedAt, decide_eq_true_eq]
  constructor
  · rintro ⟨⟨_, _, rfl, present⟩, routed⟩
    exact ⟨present, routed⟩
  · rintro ⟨present, routed⟩
    exact ⟨⟨passed.port, mem_allPorts passed.port, rfl, present⟩, routed⟩

theorem portByPort_nodup (route : AChan → MgrPort) (traffic : SbrPort → List Transaction)
    (port : MgrPort) : (portByPort route traffic port).Nodup := by
  refine List.Nodup.filter _ (List.nodup_flatMap.mpr ⟨?_, ?_⟩)
  · exact fun port _ => passedAt_nodup traffic port
  · have distinct : allPorts.Nodup := by decide
    refine distinct.imp fun {left right} different passed inLeft inRight => ?_
    exact different ((mem_passedAt.mp inLeft).1.symm.trans (mem_passedAt.mp inRight).1)

section Exists

variable {spillRegister : (T : Type) → [Inhabited T] → Buffer T}
  {contents : (T : Type) → [Inhabited T] → (spillRegister T).State → List T}
  (lossless : ∀ (T : Type) [Inhabited T], (spillRegister T).Lossless 2 (contents T))
  (config : Config)

include lossless

theorem mgrLink_run (port : MgrPort) {requests : List AChan} {answers : List RChan}
    (matched : answers.length = requests.length) :
    ∃ input, Exchange (mgrLink spillRegister config port) requests answers input ∧
      Settles (returned (mgrLink spillRegister config port) input) (answers.map (view config)) := by
  unfold mgrLink
  cases cut : config.cutMgrPorts with
  | true =>
      obtain ⟨input, exchange⟩ := obiCut_run lossless matched
      refine ⟨input, exchange, ?_⟩
      have same : view config = id := funext fun r => by simp [view, cut]
      rw [same, List.map_id]
      exact obiCut_returned lossless exchange matched
  | false =>
      obtain ⟨input, exchange⟩ := obiJoin_run matched
      refine ⟨input, exchange, ?_⟩
      have same : view config = RChan.joined := funext fun r => by simp [view, cut]
      rw [same]
      exact obiJoin_returned exchange matched

theorem networkRun_cut (cut : config.cutSbrPorts = true) (route : AChan → MgrPort)
    (traffic : SbrPort → List Transaction) :
    Nonempty (NetworkRun spillRegister config route traffic) := by
  have link : ∀ port, sbrLink spillRegister config port = obiCut spillRegister := by
    simp [sbrLink, cut]
  let answers port := (traffic port).map fun transaction => view config transaction.answer
  have sbr : ∀ port, ∃ input, Exchange (obiCut spillRegister)
      ((traffic port).map Transaction.request) (answers port) input := fun port =>
    obiCut_run lossless (by simp [answers])
  have mgr : ∀ port, ∃ input, Exchange (mgrLink spillRegister config port)
      ((portByPort route traffic port).map fun passed => passed.transaction.request)
      ((portByPort route traffic port).map fun passed => passed.transaction.answer) input ∧
      Settles (returned (mgrLink spillRegister config port) input)
        (((portByPort route traffic port).map fun passed => passed.transaction.answer).map
          (view config)) := fun port => mgrLink_run lossless config port (by simp)
  choose sbrInput sbrExchange using sbr
  choose mgrInput mgrExchange receives using mgr
  exact ⟨{
    sbrInput
    mgrInput
    enteredAt := fun port => (traffic port).map Transaction.request
    answers
    returnedAt := answers
    served := portByPort route traffic
    received := fun port => ((portByPort route traffic port).map
      fun passed => passed.transaction.answer).map (view config)
    sbrExchange := fun port => by rw [link]; exact sbrExchange port
    enters := fun port => by rw [link]; exact obiCut_entered lossless (sbrExchange port)
    returns := fun port => by
      rw [link]
      exact obiCut_returned lossless (sbrExchange port) (by simp [answers])
    mgrExchange
    receives
    passes := fun port passed => by
      rw [mem_portByPort]
      constructor
      · rintro ⟨present, routed⟩
        refine ⟨?_, present, routed⟩
        rw [List.getElem?_map, present]
        rfl
      · rintro ⟨_, present, routed⟩
        exact ⟨present, routed⟩
    once := portByPort_nodup route traffic
    answersAll := fun port => by simp [answers]
    answersOwn := fun port place passed found => by
      have present := (mem_portByPort.mp (List.mem_of_getElem? found)).1
      rw [List.getElem?_map, present, List.getElem?_map, List.getElem?_map, found]
      rfl }⟩

theorem networkRun_join (uncut : config.cutSbrPorts = false) (route : AChan → MgrPort)
    (traffic : SbrPort → List Transaction) :
    Nonempty (NetworkRun spillRegister config route traffic) := by
  have link : ∀ port, sbrLink spillRegister config port = obiJoinReversed := by
    simp [sbrLink, uncut]
  choose sbrInput sbrExchange using fun port =>
    obiJoinReversed_run ((traffic port).map Transaction.request)
  have mgr : ∀ port, ∃ input, Exchange (mgrLink spillRegister config port) [] [] input ∧
      Settles (returned (mgrLink spillRegister config port) input)
        ([].map (view config)) := fun port => mgrLink_run lossless config port rfl
  choose mgrInput mgrExchange receives using mgr
  exact ⟨{
    sbrInput
    mgrInput
    enteredAt := fun _ => []
    answers := fun _ => []
    returnedAt := fun _ => []
    served := fun _ => []
    received := fun _ => []
    sbrExchange := fun port => by rw [link]; exact sbrExchange port
    enters := fun port => by rw [link]; exact obiJoinReversed_entered _
    returns := fun port => by rw [link]; exact obiJoinReversed_returned _
    mgrExchange
    receives
    passes := fun port passed => by simp
    once := fun _ => List.nodup_nil
    answersAll := fun _ => rfl
    answersOwn := fun _ _ _ found => by cases found }⟩

theorem networkRun_exists (route : AChan → MgrPort) (traffic : SbrPort → List Transaction) :
    Nonempty (NetworkRun spillRegister config route traffic) := by
  cases cut : config.cutSbrPorts with
  | true => exact networkRun_cut lossless config cut route traffic
  | false => exact networkRun_join lossless config cut route traffic

end Exists

def RChan.data (r : RChan) : BitVec 32 × Bool := (r.rdata, r.err)

theorem view_data_iff (config : Config) (r : RChan) :
    (view config r).data = r.data ↔ config.cutMgrPorts = true ∨ r.err = false := by
  cases cut : config.cutMgrPorts with
  | true => simp [view, cut]
  | false => cases err : r.err <;> simp [view, cut, RChan.data, RChan.joined, err]

/-- Two runs differ in nothing but the time: the same requests enter the crossbar, and the same
responses are returned. -/
def SameSequences {left right : Config} {spillRegister : (T : Type) → [Inhabited T] → Buffer T}
    {route : AChan → MgrPort} {traffic : SbrPort → List Transaction}
    (run : NetworkRun spillRegister left route traffic)
    (reference : NetworkRun spillRegister right route traffic) : Prop :=
  ∀ port, run.enteredAt port = reference.enteredAt port ∧
    (run.returnedAt port).map RChan.data = (reference.returnedAt port).map RChan.data

section Compare

variable {spillRegister : (T : Type) → [Inhabited T] → Buffer T}
  {contents : (T : Type) → [Inhabited T] → (spillRegister T).State → List T}
  (lossless : ∀ (T : Type) [Inhabited T], (spillRegister T).Lossless 2 (contents T))
  {config : Config} {route : AChan → MgrPort} {traffic : SbrPort → List Transaction}
  (run : NetworkRun spillRegister config route traffic)
  (reference : NetworkRun spillRegister ⟨true, true⟩ route traffic)

include lossless

theorem returned_data (cut : config.cutSbrPorts = true) (port : SbrPort) :
    (run.returnedAt port).map RChan.data =
      (traffic port).map fun transaction => (view config transaction.answer).data := by
  rw [returned_cut lossless run cut port, List.map_map]
  rfl

theorem sameSequences_cut_iff (cut : config.cutSbrPorts = true) :
    SameSequences run reference ↔
      config.cutMgrPorts = true ∨
        ∀ port, ∀ transaction ∈ traffic port, transaction.answer.err = false := by
  have enters := entered_cut lossless run cut
  have entersReference := entered_cut lossless reference rfl
  have same : (∀ port, (run.returnedAt port).map RChan.data =
      (reference.returnedAt port).map RChan.data) ↔
      ∀ port, ∀ transaction ∈ traffic port,
        config.cutMgrPorts = true ∨ transaction.answer.err = false := by
    have passed : ∀ r, view ⟨true, true⟩ r = r := fun _ => rfl
    simp only [returned_data lossless run cut, returned_data lossless reference rfl,
      List.map_inj_left, passed, view_data_iff]
  constructor
  · intro equal
    have each := same.mp fun port => (equal port).2
    by_cases mgrCut : config.cutMgrPorts = true
    · exact .inl mgrCut
    · exact .inr fun port transaction inside =>
        (each port transaction inside).resolve_left mgrCut
  · intro quiet port
    refine ⟨(enters port).trans (entersReference port).symm, same.mpr ?_ port⟩
    intro port transaction inside
    exact quiet.imp_right fun quiet => quiet port transaction inside

theorem sameSequences_join_iff (uncut : config.cutSbrPorts = false) :
    SameSequences run reference ↔ ∀ port, traffic port = [] := by
  have enters := entered_join run uncut
  have returns := returned_join run uncut
  have entersReference := entered_cut lossless reference rfl
  constructor
  · intro equal port
    have first := (equal port).1
    rw [enters port, entersReference port] at first
    exact List.map_eq_nil_iff.mp first.symm
  · intro none port
    rw [enters port, returns port, entersReference port, returned_data lossless reference rfl port,
      none port]
    exact ⟨rfl, rfl⟩

end Compare

/-- The cuts change only the latency if and only if the ports of the managers are cut or nothing
comes from there, and the ports of the subordinates are cut or no error comes from there. -/
theorem cut_parameters_only_latency_iff {spillRegister : (T : Type) → [Inhabited T] → Buffer T}
    {contents : (T : Type) → [Inhabited T] → (spillRegister T).State → List T}
    (lossless : ∀ (T : Type) [Inhabited T], (spillRegister T).Lossless 2 (contents T))
    (config : Config) (route : AChan → MgrPort) (traffic : SbrPort → List Transaction) :
    Nonempty (NetworkRun spillRegister config route traffic) ∧
    ∀ (run : NetworkRun spillRegister config route traffic)
      (reference : NetworkRun spillRegister ⟨true, true⟩ route traffic),
      SameSequences run reference ↔
        (config.cutSbrPorts = true ∨ ∀ port, traffic port = []) ∧
          (config.cutMgrPorts = true ∨
            ∀ port, ∀ transaction ∈ traffic port, transaction.answer.err = false) := by
  refine ⟨networkRun_exists lossless config route traffic, fun run reference => ?_⟩
  cases cut : config.cutSbrPorts with
  | true =>
      rw [sameSequences_cut_iff lossless run reference cut]
      exact ⟨fun quiet => ⟨.inl rfl, quiet⟩, And.right⟩
  | false =>
      rw [sameSequences_join_iff lossless run reference cut]
      constructor
      · intro none
        refine ⟨.inr none, .inr fun port transaction inside => ?_⟩
        rw [none port] at inside
        cases inside
      · rintro ⟨silent | none, _⟩
        · cases silent
        · exact none

def failingLoad : SbrPort → List Transaction
  | .core => [⟨⟨(ObiReq.read 0x30000).toObiTransfer, 0⟩, ⟨0, 0, true⟩⟩]
  | _ => []

def toApb : AChan → MgrPort := fun _ => .apb

theorem cut_parameters_failing_load :
    ∃ (run : NetworkRun (fifo 2) ⟨false, true⟩ toApb failingLoad)
      (reference : NetworkRun (fifo 2) ⟨true, true⟩ toApb failingLoad),
      ¬SameSequences run reference := by
  have exact_ := fun config =>
    cut_parameters_only_latency_iff (fun T => fifo_lossless 2 T) config toApb failingLoad
  obtain ⟨⟨run⟩, compare⟩ := exact_ ⟨false, true⟩
  obtain ⟨⟨reference⟩, _⟩ := exact_ ⟨true, true⟩
  refine ⟨run, reference, fun same => ?_⟩
  rcases ((compare run reference).mp same).2 with cut | quiet
  · cases cut
  · cases quiet .core _ (List.mem_singleton.mpr rfl)

/-- Without the cuts of the subordinates' ports the error of the load is lost, and without those of
the managers' ports the load never enters the crossbar. -/
theorem cut_parameters_lose :
    (∃ run : NetworkRun (fifo 2) ⟨false, true⟩ toApb failingLoad,
      (run.returnedAt .core).map RChan.data = [(0, false)]) ∧
    (∃ run : NetworkRun (fifo 2) ⟨true, false⟩ toApb failingLoad, run.enteredAt .core = []) ∧
    ∃ run : NetworkRun (fifo 2) ⟨true, true⟩ toApb failingLoad,
      (run.returnedAt .core).map RChan.data = [(0, true)] ∧ (run.enteredAt .core).length = 1 := by
  have lossless := fun (T : Type) [Inhabited T] => fifo_lossless 2 T
  obtain ⟨joined⟩ := networkRun_exists lossless ⟨false, true⟩ toApb failingLoad
  obtain ⟨reversed⟩ := networkRun_exists lossless ⟨true, false⟩ toApb failingLoad
  obtain ⟨cut⟩ := networkRun_exists lossless ⟨true, true⟩ toApb failingLoad
  refine ⟨⟨joined, ?_⟩, ⟨reversed, entered_join reversed rfl .core⟩, cut, ?_, ?_⟩
  · rw [returned_cut lossless joined rfl .core]
    rfl
  · rw [returned_cut lossless cut rfl .core]
    rfl
  · rw [entered_cut lossless cut rfl .core]
    rfl

end Atalanta.ObiLink
