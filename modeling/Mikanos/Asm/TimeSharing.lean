import Mikanos.Asm.Footprint
import Mikanos.Asm.RoundTrip

/-!
# Tasks share the processor

One processor runs the tasks in turns.  A task gives way when the timer interrupts
it and `TaskManager::SwitchTask` chooses another one, when it sleeps, or when it
finishes; new tasks begin with the context that `Task::InitContext` has written.
The registers of all the others lie in memory meanwhile.  Whatever the scheduler
chooses, every task goes on as on a processor of its own.
-/

namespace Mikanos.Asm

open Memory Space

/-! ## The system -/

/-- The machine, the contexts of `tasks_` by their addresses, and that of the task
which runs. -/
structure Kernel where
  machine : Machine
  tasks : List (BitVec 64)
  current : BitVec 64

/-- What happens on the processor, with what C++ code leaves behind. -/
inductive Event
  | work (next : Machine)  -- instructions of the task
  | create (p stackEnd f id data : BitVec 64)  -- `Task::InitContext`
  | tick (back : Machine)  -- `LAPICTimerOnInterrupt` returns
  | preempt (called : Space) (next : BitVec 64) (later : Machine)  -- `SwitchTask` does not
  | sleep (next ret : BitVec 64)  -- `TaskManager::Sleep`
  | finish (next : BitVec 64) (later : Machine)  -- `TaskManager::Finish`

/-- Two contexts do not meet. -/
def ContextsApart (p q : BitVec 64) : Prop :=
  Separate p TaskContext.size q TaskContext.size

instance : Std.Symm ContextsApart :=
  ⟨fun _ _ apart => apart.symm⟩

/-- The contexts are what they were. -/
def Kept (tasks : List (BitVec 64)) (mem mem' : Space) : Prop :=
  ∀ p ∈ tasks, Agree mem' mem p TaskContext.size

/-- `RestoreContext` is called for the context at `next`, with the contexts as they
are in `mem`, on a stack that lies elsewhere. -/
structure Restoring (tasks : List (BitVec 64)) (mem : Space) (next : BitVec 64)
    (later : Machine) : Prop where
  member : next ∈ tasks
  rdi : later.cpu.gpr .rdi = next
  kept : Kept tasks mem later.mem
  apart : ∀ p ∈ tasks, Separate (later.below 5) 40 p TaskContext.size

namespace Kernel

/-- The contexts that are in use. -/
def others (k : Kernel) : List (BitVec 64) :=
  k.tasks.erase k.current

/-- What the code around the sequences has to respect. -/
def Allows (gate : Gate) (k : Kernel) : Event → Prop
  | .work next => Kept k.others k.machine.mem next.mem
  | .create p _ _ _ _ =>
      Aligned p ∧ Separate (builtAt gate) 752 p TaskContext.size ∧
        ∀ q ∈ k.tasks, ContextsApart p q
  | .tick back => ∀ built, run buildContext (interrupt gate k.machine) = some built →
      CallReturned built back ∧ Kept k.others built.mem back.mem
  | .preempt called next later => ∀ built,
      run buildContext (interrupt gate k.machine) = some built →
      Agree called built.mem (built.cpu.gpr .rdi) TaskContext.size ∧
        Kept k.others built.mem called ∧
        Restoring k.tasks (switchTask called k.current (built.cpu.gpr .rdi)) next later
  | .sleep next _ =>
      next ∈ k.tasks ∧ k.machine.cpu.gpr .rdi = next ∧ k.machine.cpu.gpr .rsi = k.current ∧
        ∀ p ∈ k.tasks, Separate (k.machine.below 6) 48 p TaskContext.size
  | .finish next later => Restoring k.others k.machine.mem next later

/-- One event; `none` when a sequence faults. -/
def step (gate : Gate) (k : Kernel) : Event → Option Kernel
  | .work next => some { k with machine := next }
  | .create p stackEnd f id data =>
      let mem := initContext k.machine.mem p k.machine.cpu.cr3 stackEnd f id data
      some { k with machine := { k.machine with mem := mem }, tasks := k.tasks ++ [p] }
  | .tick back => do
      let _ ← run buildContext (interrupt gate k.machine)
      let resumed ← run leaveHandler back
      some { k with machine := resumed }
  | .preempt _ next later => do
      let _ ← run buildContext (interrupt gate k.machine)
      let resumed ← run restoreContext later
      some { k with machine := resumed, current := next }
  | .sleep next ret => do
      let resumed ← run switchContext (k.machine.call ret)
      some { k with machine := resumed, current := next }
  | .finish next later => do
      let resumed ← run restoreContext later
      some ⟨resumed, k.others, next⟩

def steps (gate : Gate) : Kernel → List Event → Option Kernel
  | k, [] => some k
  | k, event :: events => (k.step gate event).bind (steps gate · events)

/-- Every event of a run is allowed where it happens. -/
def AllowsAll (gate : Gate) : Kernel → List Event → Prop
  | _, [] => True
  | k, event :: events =>
      k.Allows gate event ∧ ∀ k', k.step gate event = some k' → AllowsAll gate k' events

end Kernel

/-! ## A processor for each task -/

/-- The processors of the tasks, and whose turn it is. -/
structure Alone where
  cpus : BitVec 64 → Option Cpu
  turn : BitVec 64

/-- The state when a call has returned. -/
def Cpu.returned (cpu : Cpu) (ret : BitVec 64) : Cpu :=
  { cpu with rip := ret, rflags := pushedFlags cpu.rflags }

namespace Alone

/-- Only the task whose turn it is changes its registers. -/
def step (a : Alone) : Event → Alone
  | .work next => { a with cpus := Function.update a.cpus a.turn (some next.cpu) }
  | .create p stackEnd f id data =>
      let cpu := (a.cpus a.turn).map fun cpu => startingCpu cpu.cr3 stackEnd f id data
      { a with cpus := Function.update a.cpus p cpu }
  | .tick _ => a
  | .preempt _ next _ => { a with turn := next }
  | .sleep next ret =>
      let cpu := (a.cpus a.turn).map (·.returned ret)
      ⟨Function.update a.cpus a.turn cpu, next⟩
  | .finish next _ => ⟨Function.update a.cpus a.turn none, next⟩

def steps (a : Alone) (events : List Event) : Alone :=
  events.foldl step a

/-- The first task, before there are others. -/
def initial (p : BitVec 64) (cpu : Cpu) : Alone :=
  ⟨Function.update (fun _ => none) p (some cpu), p⟩

end Alone

/-! ## Contexts in memory -/

/-- Where the contexts may lie. -/
structure Laid (gate : Gate) (tasks : List (BitVec 64)) : Prop where
  aligned : ∀ p ∈ tasks, Aligned p
  frame : ∀ p ∈ tasks, Separate (builtAt gate) 752 p TaskContext.size
  apart : tasks.Pairwise ContextsApart

/-- The contexts hold the registers. -/
def Stored (mem : Space) (tasks : List (BitVec 64)) (cpus : BitVec 64 → Option Cpu) : Prop :=
  ∀ p ∈ tasks, cpus p = some (contextAt mem p).cpu

/-- The machine has the registers of the task that runs, and the contexts those of
the others. -/
structure Shows (gate : Gate) (k : Kernel) (a : Alone) : Prop where
  laid : Laid gate k.tasks
  turn : a.turn = k.current
  member : k.current ∈ k.tasks
  running : a.cpus k.current = some k.machine.cpu
  stored : Stored k.machine.mem k.others a.cpus
  gone : ∀ p, p ∉ k.tasks → a.cpus p = none

theorem not_contextsApart_self (p : BitVec 64) : ¬ ContextsApart p p := by
  intro apart
  have size := apart.1
  rw [BitVec.sub_self] at size
  exact absurd size (by decide)

namespace Laid

variable {gate : Gate} {tasks : List (BitVec 64)} {p q : BitVec 64}

theorem nodup (laid : Laid gate tasks) : tasks.Nodup := by
  refine laid.apart.imp fun {p q} apart same => ?_
  subst same
  exact not_contextsApart_self p apart

theorem separate (laid : Laid gate tasks) (member : p ∈ tasks) (member' : q ∈ tasks)
    (other : p ≠ q) : ContextsApart p q :=
  laid.apart.forall member member' other

theorem erase (laid : Laid gate tasks) (p : BitVec 64) : Laid gate (tasks.erase p) where
  aligned q member := laid.aligned q (List.mem_of_mem_erase member)
  frame q member := laid.frame q (List.mem_of_mem_erase member)
  apart := laid.apart.sublist List.erase_sublist

theorem concat (laid : Laid gate tasks) (aligned : Aligned p)
    (frame : Separate (builtAt gate) 752 p TaskContext.size)
    (apart : ∀ q ∈ tasks, ContextsApart p q) :
    Laid gate (tasks ++ [p]) where
  aligned := List.forall_mem_append.mpr ⟨laid.aligned, List.forall_mem_singleton.mpr aligned⟩
  frame := List.forall_mem_append.mpr ⟨laid.frame, List.forall_mem_singleton.mpr frame⟩
  apart := by
    refine List.pairwise_append.mpr ⟨laid.apart, List.pairwise_singleton _ p, ?_⟩
    intro q member q' member'
    rw [List.mem_singleton.mp member']
    exact symm (apart q member)

end Laid

theorem Kept.trans {tasks : List (BitVec 64)} {mem mem' mem'' : Space}
    (kept : Kept tasks mem mem') (kept' : Kept tasks mem' mem'') : Kept tasks mem mem'' :=
  fun p member => (kept' p member).trans (kept p member)

theorem Stored.congr {mem mem' : Space} {tasks : List (BitVec 64)}
    {cpus : BitVec 64 → Option Cpu} (stored : Stored mem tasks cpus) (kept : Kept tasks mem mem') :
    Stored mem' tasks cpus := by
  intro p member
  rw [stored p member, contextAt_congr (kept p member)]

section Steps

variable {gate : Gate} {k : Kernel} {a : Alone}

theorem Kernel.mem_others (nodup : k.tasks.Nodup) {p : BitVec 64} :
    p ∈ k.others ↔ p ≠ k.current ∧ p ∈ k.tasks :=
  nodup.mem_erase_iff

/-- `RestoreContext` goes on with a task whose registers are stored. -/
theorem shows_of_restoring {tasks : List (BitVec 64)} {mem : Space} {next : BitVec 64}
    {later : Machine} {cpus : BitVec 64 → Option Cpu} (laid : Laid gate tasks)
    (stored : Stored mem tasks cpus) (gone : ∀ p, p ∉ tasks → cpus p = none)
    (restoring : Restoring tasks mem next later) :
    ∃ resumed, run restoreContext later = some resumed ∧
      Shows gate ⟨resumed, tasks, next⟩ ⟨cpus, next⟩ := by
  obtain ⟨member, rfl, kept, apart⟩ := restoring
  obtain ⟨mem', runs, agree⟩ := run_restoreContext (laid.aligned _ member) (apart _ member)
  have before := stored.congr kept
  have after : Stored mem' tasks cpus :=
    before.congr fun p member => agree p TaskContext.size (apart p member)
  refine ⟨_, runs, laid, rfl, member, before _ member, ?_, gone⟩
  exact fun p member => after p (List.mem_of_mem_erase member)

namespace Shows

/-- The registers of the task that runs are stored as well. -/
theorem storedAll (shows : Shows gate k a) {mem : Space} {cpu : Cpu}
    (others : Kept k.others k.machine.mem mem)
    (own : (contextAt mem k.current).cpu = cpu) :
    Stored mem k.tasks (Function.update a.cpus k.current (some cpu)) := by
  intro p member
  by_cases same : p = k.current
  · rw [same, Function.update_self, own]
  · rw [Function.update_of_ne same]
    exact shows.stored.congr others p ((Kernel.mem_others shows.laid.nodup).mpr ⟨same, member⟩)

theorem goneAll (shows : Shows gate k a) (cpu : Option Cpu) {p : BitVec 64}
    (absent : p ∉ k.tasks) : Function.update a.cpus k.current cpu p = none := by
  have other : p ≠ k.current := fun same => absent (same.symm ▸ shows.member)
  rw [Function.update_of_ne other]
  exact shows.gone p absent

theorem work (shows : Shows gate k a) {next : Machine}
    (kept : Kept k.others k.machine.mem next.mem) :
    Shows gate { k with machine := next } (a.step (.work next)) := by
  have does : a.step (.work next) =
      ⟨Function.update a.cpus k.current (some next.cpu), k.current⟩ := by
    rw [← shows.turn]
    rfl
  rw [does]
  refine ⟨shows.laid, rfl, shows.member, Function.update_self _ _ _, fun p member => ?_,
    fun p absent => shows.goneAll _ absent⟩
  have other := ((Kernel.mem_others shows.laid.nodup).mp member).1
  exact (Function.update_of_ne other _ _).trans (shows.stored.congr kept p member)

/-- The registers did not change. -/
theorem resumed (shows : Shows gate k a) {next : Machine} (same : next.cpu = k.machine.cpu)
    (kept : Kept k.others k.machine.mem next.mem) : Shows gate { k with machine := next } a where
  laid := shows.laid
  turn := shows.turn
  member := shows.member
  running := shows.running.trans (congrArg some same.symm)
  stored := shows.stored.congr kept
  gone := shows.gone

theorem create (shows : Shows gate k a) {p : BitVec 64} (stackEnd f id data : BitVec 64)
    (aligned : Aligned p) (frame : Separate (builtAt gate) 752 p TaskContext.size)
    (apart : ∀ q ∈ k.tasks, ContextsApart p q) :
    ∃ k', k.step gate (.create p stackEnd f id data) = some k' ∧
      Shows gate k' (a.step (.create p stackEnd f id data)) := by
  have fresh : p ∉ k.tasks := fun member => not_contextsApart_self p (apart p member)
  have other : k.current ≠ p := fun same => fresh (same ▸ shows.member)
  have kept : Kept k.tasks k.machine.mem
      (initContext k.machine.mem p k.machine.cpu.cr3 stackEnd f id data) :=
    fun q member => agree_initContext (apart q member) (by decide)
  have started : (a.cpus a.turn).map (fun cpu => startingCpu cpu.cr3 stackEnd f id data) =
      some (startingCpu k.machine.cpu.cr3 stackEnd f id data) := by
    rw [shows.turn, shows.running, Option.map_some]
  have does : a.step (.create p stackEnd f id data) = ⟨Function.update a.cpus p
      (some (startingCpu k.machine.cpu.cr3 stackEnd f id data)), k.current⟩ := by
    rw [← started, ← shows.turn]
    rfl
  have laid := shows.laid.concat aligned frame apart
  rw [does]
  refine ⟨_, rfl, laid, rfl, List.mem_append_left [p] shows.member,
    (Function.update_of_ne other _ _).trans shows.running, fun q member => ?_, fun q absent => ?_⟩
  · obtain ⟨waits, task⟩ := List.Nodup.mem_erase_iff laid.nodup |>.mp member
    by_cases same : q = p
    · subst same
      exact (Function.update_self _ _ _).trans (congrArg some contextAt_initContext.symm)
    · have before : q ∈ k.tasks := (List.mem_append.mp task).resolve_right
        fun new => same (List.mem_singleton.mp new)
      have stored := shows.stored q ((Kernel.mem_others shows.laid.nodup).mpr ⟨waits, before⟩)
      refine (Function.update_of_ne same _ _).trans (stored.trans ?_)
      exact congrArg (fun ctx => some ctx.cpu) (contextAt_congr (kept q before)).symm
  · obtain ⟨absent, new⟩ := not_or.mp (List.mem_append.not.mp absent)
    have same : q ≠ p := fun same => new (List.mem_singleton.mpr same)
    exact (Function.update_of_ne same _ _).trans (shows.gone q absent)

/-- The frame of the interrupt is separate from every context. -/
theorem kept_built (shows : Shows gate k a) {built : Machine}
    (keeps : ∀ b n, Separate (builtAt gate) 752 b n → 0 < n → Agree built.mem k.machine.mem b n) :
    Kept k.tasks k.machine.mem built.mem :=
  fun p member => keeps p TaskContext.size (shows.laid.frame p member) (by decide)

theorem tick (shows : Shows gate k a) {back : Machine} (allowed : k.Allows gate (.tick back)) :
    ∃ k', k.step gate (.tick back) = some k' ∧ Shows gate k' (a.step (.tick back)) := by
  obtain ⟨built, builds, -, -, keeps⟩ := run_interrupted gate k.machine
  obtain ⟨built', builds', returns⟩ := handler_returns gate k.machine
  obtain rfl : built = built' := Option.some.inj (builds.symm.trans builds')
  obtain ⟨returned, kept⟩ := allowed built builds
  obtain ⟨resumed, leaves, same⟩ := returns back returned
  have others : Kept k.others k.machine.mem built.mem :=
    fun p member => shows.kept_built keeps p (List.mem_of_mem_erase member)
  refine ⟨{ k with machine := resumed }, ?_, shows.resumed same ?_⟩
  · exact Option.bind_eq_some_iff.mpr
      ⟨built, builds, Option.bind_eq_some_iff.mpr ⟨resumed, leaves, rfl⟩⟩
  · rw [mem_leaveHandler leaves]
    exact others.trans kept

theorem preempt (shows : Shows gate k a) {called : Space} {next : BitVec 64} {later : Machine}
    (allowed : k.Allows gate (.preempt called next later)) :
    ∃ k', k.step gate (.preempt called next later) = some k' ∧
      Shows gate k' (a.step (.preempt called next later)) := by
  obtain ⟨built, builds, rdi, context, keeps⟩ := run_interrupted gate k.machine
  obtain ⟨argument, kept, restoring⟩ := allowed built builds
  rw [rdi] at argument restoring
  have own : (contextAt (switchTask called k.current (builtAt gate)) k.current).cpu =
      k.machine.cpu := by
    rw [contextAt_switchTask, contextAt_congr argument, context]
  have others : Kept k.others k.machine.mem (switchTask called k.current (builtAt gate)) := by
    intro p member
    obtain ⟨other, task⟩ := (Kernel.mem_others shows.laid.nodup).mp member
    have apart := shows.laid.separate shows.member task (Ne.symm other)
    have copied : Agree (switchTask called k.current (builtAt gate)) called p TaskContext.size := by
      unfold switchTask Space.copy
      exact agree_overlay apart
    exact copied.trans ((kept p member).trans (shows.kept_built keeps p task))
  have stored := shows.storedAll others own
  rw [← shows.running, Function.update_eq_self] at stored
  obtain ⟨resumed, runs, after⟩ := shows_of_restoring shows.laid stored shows.gone restoring
  exact ⟨_, Option.bind_eq_some_iff.mpr
    ⟨built, builds, Option.bind_eq_some_iff.mpr ⟨resumed, runs, rfl⟩⟩, after⟩

/-- What `SwitchContext` saves. -/
theorem saves (shows : Shows gate k a) (ret : BitVec 64)
    (rsi : k.machine.cpu.gpr .rsi = k.current)
    (apart : ∀ p ∈ k.tasks, Separate (k.machine.below 6) 48 p TaskContext.size) :
    ∃ saved, run saveContext (k.machine.call ret) = some saved ∧
      saved.cpu.gpr .rdi = k.machine.cpu.gpr .rdi ∧ saved.below 5 = k.machine.below 6 ∧
      (contextAt saved.mem k.current).cpu = k.machine.cpu.returned ret ∧
      Kept k.others k.machine.mem saved.mem := by
  have returns (p : BitVec 64) (member : p ∈ k.tasks) :
      Separate ((k.machine.call ret).cpu.gpr .rsp) 8 p TaskContext.size := by
    rw [Machine.call_rsp]
    exact Machine.separate_below (k := 5) (apart p member) (by decide) (by decide)
  have flags (p : BitVec 64) (member : p ∈ k.tasks) :
      Separate ((k.machine.call ret).cpu.gpr .rsp - 8) 8 p TaskContext.size := by
    change Separate ((k.machine.call ret).below 1) 8 p TaskContext.size
    rw [Machine.call_below]
    exact Machine.separate_below (k := 4) (apart p member) (by decide) (by decide)
  have base : (k.machine.call ret).cpu.gpr .rsi = k.current :=
    (Cpu.set_other k.machine.cpu _ (by decide)).trans rsi
  have aligned := shows.laid.aligned _ shows.member
  have address : (k.machine.call ret).addr .rsp 0 = (k.machine.call ret).cpu.gpr .rsp :=
    BitVec.add_zero _
  obtain ⟨saved, runs, rdi, rsp, mem⟩ := run_saveContext (m := k.machine.call ret)
    (base.symm ▸ aligned) (by rw [base, address]; exact returns _ shows.member)
  rw [base] at mem
  refine ⟨saved, runs, ?_, ?_, ?_, fun p member => ?_⟩
  · exact rdi.trans (Cpu.set_other k.machine.cpu _ (by decide))
  · rw [← Machine.call_below k.machine ret]
    unfold Machine.below
    rw [rsp]
  · rw [mem, contextAt_savedSpace (flags _ shows.member)]
    exact cpu_of_call k.machine ret
  · obtain ⟨other, task⟩ := (Kernel.mem_others shows.laid.nodup).mp member
    have top : Separate (k.machine.below 1) 8 p TaskContext.size :=
      Machine.call_rsp k.machine ret ▸ returns p task
    have pushed : Agree (k.machine.call ret).mem k.machine.mem p TaskContext.size :=
      agree_store top
    have separate := shows.laid.separate shows.member task (Ne.symm other)
    rw [mem]
    exact (agree_savedSpace separate (flags p task) (by decide)).trans pushed

theorem sleep (shows : Shows gate k a) {next ret : BitVec 64}
    (allowed : k.Allows gate (.sleep next ret)) :
    ∃ k', k.step gate (.sleep next ret) = some k' ∧
      Shows gate k' (a.step (.sleep next ret)) := by
  obtain ⟨member, rdi, rsi, apart⟩ := allowed
  obtain ⟨saved, runs, rdi', below, own, others⟩ := shows.saves ret rsi apart
  have restoring : Restoring k.tasks saved.mem next saved := by
    refine ⟨member, rdi'.trans rdi, fun p _ => .refl _ p _, fun p member => ?_⟩
    rw [below]
    exact (apart p member).initial (by decide)
  have does : a.step (.sleep next ret) =
      ⟨Function.update a.cpus k.current (some (k.machine.cpu.returned ret)), next⟩ := by
    have returned : (a.cpus a.turn).map (·.returned ret) = some (k.machine.cpu.returned ret) := by
      rw [shows.turn, shows.running, Option.map_some]
    rw [← returned, ← shows.turn]
    rfl
  have gone (p : BitVec 64) (absent : p ∉ k.tasks) :=
    shows.goneAll (some (k.machine.cpu.returned ret)) absent
  obtain ⟨resumed, restores, after⟩ := shows_of_restoring shows.laid
    (shows.storedAll others own) gone restoring
  refine ⟨{ k with machine := resumed, current := next }, ?_, ?_⟩
  · refine Option.bind_eq_some_iff.mpr ⟨resumed, ?_, rfl⟩
    rw [switchContext, run_append, runs, Option.bind_some, restores]
  · rwa [does]

theorem finish (shows : Shows gate k a) {next : BitVec 64} {later : Machine}
    (restoring : Restoring k.others k.machine.mem next later) :
    ∃ k', k.step gate (.finish next later) = some k' ∧
      Shows gate k' (a.step (.finish next later)) := by
  have stored : Stored k.machine.mem k.others (Function.update a.cpus k.current none) := by
    intro p member
    rw [Function.update_of_ne ((Kernel.mem_others shows.laid.nodup).mp member).1]
    exact shows.stored p member
  have gone (p : BitVec 64) (absent : p ∉ k.others) :
      Function.update a.cpus k.current none p = none := by
    by_cases same : p = k.current
    · rw [same, Function.update_self]
    · rw [Function.update_of_ne same]
      exact shows.gone p fun task => absent
        ((Kernel.mem_others shows.laid.nodup).mpr ⟨same, task⟩)
  obtain ⟨resumed, runs, after⟩ := shows_of_restoring (shows.laid.erase k.current) stored gone
    restoring
  have does : a.step (.finish next later) =
      ⟨Function.update a.cpus k.current none, next⟩ := by
    rw [← shows.turn]
    rfl
  exact ⟨_, Option.bind_eq_some_iff.mpr ⟨resumed, runs, rfl⟩, does ▸ after⟩

/-- One event, on the processor that is shared and on those of the tasks. -/
theorem step (shows : Shows gate k a) {event : Event} (allowed : k.Allows gate event) :
    ∃ k', k.step gate event = some k' ∧ Shows gate k' (a.step event) := by
  cases event with
  | work next => exact ⟨_, rfl, shows.work allowed⟩
  | create p stackEnd f id data =>
      obtain ⟨aligned, frame, apart⟩ := allowed
      exact shows.create stackEnd f id data aligned frame apart
  | tick back => exact shows.tick allowed
  | preempt called next later => exact shows.preempt allowed
  | sleep next ret => exact shows.sleep allowed
  | finish next later => exact shows.finish allowed

theorem steps (shows : Shows gate k a) {events : List Event} (allowed : k.AllowsAll gate events) :
    ∃ k', k.steps gate events = some k' ∧ Shows gate k' (a.steps events) := by
  induction events generalizing k a with
  | nil => exact ⟨k, rfl, shows⟩
  | cons event events ih =>
      obtain ⟨first, rest⟩ := allowed
      obtain ⟨k', steps, after⟩ := shows.step first
      obtain ⟨k'', runs, shows'⟩ := ih after (rest k' steps)
      refine ⟨k'', ?_, shows'⟩
      rw [Kernel.steps, steps, Option.bind_some, runs]

end Shows

end Steps

/-- The tasks that live have registers. -/
theorem Shows.mem_iff {gate : Gate} {k : Kernel} {a : Alone} (shows : Shows gate k a)
    {p : BitVec 64} : p ∈ k.tasks ↔ a.cpus p ≠ none := by
  constructor
  · intro member
    by_cases same : p = k.current
    · rw [same, shows.running]
      exact Option.some_ne_none _
    · rw [shows.stored p ((Kernel.mem_others shows.laid.nodup).mpr ⟨same, member⟩)]
      exact Option.some_ne_none _
  · intro lives
    by_contra absent
    exact lives (shows.gone p absent)

theorem Kernel.allowsAll_concat {gate : Gate} {k : Kernel} {events : List Event} {event : Event}
    (allowed : k.AllowsAll gate events)
    (last : ∀ k', k.steps gate events = some k' → k'.Allows gate event) :
    k.AllowsAll gate (events ++ [event]) := by
  induction events generalizing k with
  | nil => exact ⟨last k rfl, fun _ _ => trivial⟩
  | cons first events ih =>
      obtain ⟨head, tail⟩ := allowed
      refine ⟨head, fun k' steps => ih (tail k' steps) fun k'' runs => last k'' ?_⟩
      rw [Kernel.steps, steps, Option.bind_some, runs]

/-- The timer's entry, with its stack. -/
def sampleGate : Gate := ⟨0x8, 0x80000⟩

/-- The first task alone. -/
def sampleKernel : Kernel := ⟨sample, [0x21000], 0x21000⟩

theorem allowsAll_sample : sampleKernel.AllowsAll sampleGate
    [.create 0x20000 0x60000 0x5000 2 7, .sleep 0x20000 0x1234] := by
  have apart : ContextsApart 0x20000 0x21000 := by
    unfold ContextsApart
    decide
  have stack : ∀ p ∈ [0x21000, 0x20000], Separate (sample.below 6) 48 p TaskContext.size :=
    List.forall_mem_cons.mpr ⟨by decide, List.forall_mem_singleton.mpr (by decide)⟩
  have next : (0x20000 : BitVec 64) ∈ [0x21000, 0x20000] := by decide
  refine ⟨⟨by decide, by decide, List.forall_mem_singleton.mpr apart⟩, fun k' steps => ?_⟩
  obtain rfl := Option.some.inj steps
  exact ⟨⟨next, rfl, rfl, stack⟩, fun _ _ => trivial⟩

end Mikanos.Asm
