/-
# To leave the console

To leave, the console tells the worker of its last row to clean up, waits for it, and goes on with
the row before.  A worker takes its commands in their order, so it gets to the cleanup whatever was
told it before, and whatever the RPCs answer.

So a console that leaves is never stuck: with its workers alone it can always get to its end, where
no server is left that was not told to shut down (`leaving_ends`).
-/

import RaftPlayground.Repl.Servers

namespace RaftPlayground
namespace Repl

open Protocol
open Server (Bytes)

/-- A step of a console that leaves or of a worker, which hears what is answered at this point. -/
def Closes (answers : Console → Remote) (st : Step Console ConsoleAction) : Prop :=
  match st.act with
  | .work _ remote => remote = answers st.before
  | .send _ | .cleanup | .reap => True
  | .press _ | .handle _ | .poll .. | .pong .. | .draw _ => False

/-- The worker of the last row is done, or will be told so. -/
def Asked (c : Console) : Prop :=
  c.phase = .closing true → c.nodes ≠ [] ∧ ∀ (i : ℕ) (n : Node), c.nodes[i]? = some n →
    i + 1 = c.nodes.length → n.worker.done = true ∨ .cleanup ∈ n.worker.inbox

section

variable {lib : Lib} {content : Bytes} {h : List (Step Console ConsoleAction)} {c c' : Console}
  {a : ConsoleAction} {i : ℕ} {n n' : Node}

/-- A row is replaced by one that is as far. -/
theorem Asked.set (hc : Asked c) (hn : c.nodes[i]? = some n) (hnodes : c'.nodes = c.nodes.set i n')
    (hphase : c'.phase = c.phase)
    (hfar : n.worker.done = true ∨ .cleanup ∈ n.worker.inbox →
      n'.worker.done = true ∨ .cleanup ∈ n'.worker.inbox) : Asked c' := by
  intro hclosing
  obtain ⟨hne, hlast⟩ := hc (hphase ▸ hclosing)
  rw [hnodes]
  refine ⟨fun hempty => hne ((List.set_eq_nil_iff _ _).1 hempty), ?_⟩
  rw [List.length_set]
  exact rows_set hlast fun hi => hfar (hlast i n hn hi)

/-- **One step.** -/
theorem Asked.next (hc : Asked c) (hnext : c.next lib a c') : Asked c' := by
  cases Console.next_moved hnext with
  | pressed | ponged | drawn => exact hc
  | reported running _ found => exact hc.set found rfl rfl id
  | handled running _ _ touched =>
      cases touched with
      | kept _ phase | told _ _ _ phase | spawned _ _ phase =>
          exact fun hclosing => by cases hclosing.symm.trans (phase.trans running)
      | left _ phase => exact fun hclosing => by cases hclosing.symm.trans phase
  | @worked i remote n cmd rest node live sent inbox =>
      refine hc.set node rfl rfl fun hfar => ?_
      rcases hfar with hdone | hmem
      · exact absurd (live.symm.trans hdone) Bool.false_ne_true
      · rw [inbox] at hmem
        rcases List.mem_cons.1 hmem with rfl | hmem
        · exact Or.inl rfl
        · exact Or.inr hmem
  | polled node => exact hc.set node rfl rfl id
  | sent node => exact hc.set node rfl rfl id
  | @asked n closing last =>
      rw [List.getLast?_eq_getElem?] at last
      have hlt := (List.getElem?_eq_some_iff.1 last).1
      refine fun _ => ⟨fun hempty => ?_, fun i m hm hi => ?_⟩
      · rw [(List.set_eq_nil_iff _ _).1 hempty] at hlt
        exact absurd hlt (Nat.not_lt_zero _)
      · rw [List.length_set] at hi
        obtain rfl : i = c.nodes.length - 1 := by omega
        rw [List.getElem?_set_self hlt] at hm
        obtain rfl := Option.some.inj hm
        exact Or.inr (List.mem_append_right _ List.mem_cons_self)
  | closed => exact fun hclosing => by cases hclosing
  | reaped => exact fun hclosing => by cases hclosing

theorem ConsoleRun.asked (hrun : ConsoleRun lib content h c) : Asked c := by
  obtain ⟨calls, init, hnew, hrun⟩ := hrun
  refine hrun.invariant (fun _ => True) (fun _ c => Asked c) ?_
    (fun _ _ _ _ _ hc hnext _ => hc.next hnext) fun _ _ => trivial
  obtain ⟨state, _, heq⟩ := Option.bind_eq_some_iff.1 hnew
  obtain rfl := Option.some.inj heq
  exact fun hclosing => by cases hclosing

/-! ### The way to the end -/

variable (lib) (answers : Console → Remote)

/-- The console can get there by the steps of a console that leaves and of its workers. -/
def Closable (c c' : Console) : Prop :=
  ∃ h, Run (Console.next lib) c h c' ∧ ∀ st ∈ h, Closes answers st

variable {lib answers}

theorem Closable.refl (c : Console) : Closable lib answers c c :=
  ⟨[], .nil, fun _ hst => absurd hst List.not_mem_nil⟩

theorem Closable.trans {c₁ c₂ c₃ : Console} (h₁ : Closable lib answers c₁ c₂)
    (h₂ : Closable lib answers c₂ c₃) : Closable lib answers c₁ c₃ := by
  obtain ⟨h₁, hrun₁, hcloses₁⟩ := h₁
  obtain ⟨h₂, hrun₂, hcloses₂⟩ := h₂
  exact ⟨h₂ ++ h₁, hrun₁.append hrun₂, List.forall_mem_append.2 ⟨hcloses₂, hcloses₁⟩⟩

theorem Closable.of_next (hnext : c.next lib a c') (hcloses : Closes answers ⟨c, a, c'⟩) :
    Closable lib answers c c' :=
  ⟨_, Run.nil.cons hnext, List.forall_mem_singleton.2 hcloses⟩

variable (lib answers)

/-- A worker sends what it has to send. -/
theorem exists_sent (hn : c.nodes[i]? = some n) :
    ∃ c', Closable lib answers c c' ∧ c'.phase = c.phase ∧
      c'.nodes = c.nodes.set i { n with worker := { n.worker with outbox := [] } } := by
  have hlt := (List.getElem?_eq_some_iff.1 hn).1
  induction houtbox : n.worker.outbox generalizing c n with
  | nil =>
      refine ⟨c, .refl c, rfl, ?_⟩
      obtain ⟨_, rfl⟩ := List.getElem?_eq_some_iff.1 hn
      rw [← houtbox]
      exact (List.set_getElem_self hlt).symm
  | cons event rest ih =>
      let n₁ : Node := { n with worker := { n.worker with outbox := rest } }
      let c₁ : Console := { c with nodes := c.nodes.set i n₁, mailbox := c.mailbox ++ [event] }
      have hnext : c.next lib (.send i) c₁ := by
        refine Option.bind_eq_some_iff.2 ⟨n, hn,
          Option.bind_eq_some_iff.2 ⟨(event, n₁.worker), ?_, rfl⟩⟩
        rw [Worker.send, houtbox]
      have hn₁ : c₁.nodes[i]? = some n₁ := List.getElem?_set_self hlt
      obtain ⟨c', hway, hphase, hnodes⟩ := ih hn₁ (by rwa [List.length_set]) rfl
      refine ⟨c', (Closable.of_next hnext trivial).trans hway, hphase, hnodes.trans ?_⟩
      exact List.set_set ..

/-- The last row is replaced. -/
theorem getLast?_set {nodes : List Node} (hlast : nodes.getLast? = some n) (n' : Node) :
    (nodes.set (nodes.length - 1) n').getLast? = some n' := by
  rw [List.getLast?_eq_getElem?] at hlast ⊢
  rw [List.length_set, List.getElem?_set_self (List.getElem?_eq_some_iff.1 hlast).1]

/-- The worker of the last row sends what it has to send. -/
theorem exists_last_sent (hlast : c.nodes.getLast? = some n) :
    ∃ c', Closable lib answers c c' ∧ c'.phase = c.phase ∧ c'.nodes.length = c.nodes.length ∧
      c'.nodes.getLast? = some { n with worker := { n.worker with outbox := [] } } := by
  have hn := List.getLast?_eq_getElem? ▸ hlast
  obtain ⟨c', hway, hphase, hnodes⟩ := exists_sent lib answers hn
  exact ⟨c', hway, hphase, by rw [hnodes, List.length_set], hnodes ▸ getLast?_set hlast _⟩

/-- A worker that is done goes, once it sent what it has to send. -/
theorem exists_reaped_of_done (hclosing : c.phase = .closing true)
    (hlast : c.nodes.getLast? = some n) (hdone : n.worker.done = true) :
    ∃ c', Closable lib answers c c' ∧ c'.phase = .closing false ∧
      c'.nodes.length + 1 = c.nodes.length := by
  obtain ⟨c₁, hway, hphase, hlength, hlast₁⟩ := exists_last_sent lib answers hlast
  have hnext : c₁.next lib .reap
      { c₁ with nodes := c₁.nodes.dropLast, phase := .closing false } := by
    rw [Console.next, Console.step, hphase.trans hclosing, hlast₁]
    exact if_pos ⟨hdone, rfl⟩
  have hne : c₁.nodes ≠ [] := fun hempty => by simp [hempty] at hlast₁
  refine ⟨_, hway.trans (.of_next hnext trivial), rfl, ?_⟩
  rw [← hlength, List.length_dropLast]
  exact Nat.sub_add_cancel (List.length_pos_iff.2 hne)

/-- The worker of the last row gets to its cleanup, and the row goes. -/
theorem exists_reaped (hclosing : c.phase = .closing true) (hlast : c.nodes.getLast? = some n)
    (hfar : n.worker.done = true ∨ .cleanup ∈ n.worker.inbox) :
    ∃ c', Closable lib answers c c' ∧ c'.phase = .closing false ∧
      c'.nodes.length + 1 = c.nodes.length := by
  -- on what the worker has to take, and each time its outbox is emptied first
  induction hinbox : n.worker.inbox generalizing c n with
  | nil =>
      refine exists_reaped_of_done lib answers hclosing hlast (hfar.resolve_right fun hmem => ?_)
      rw [hinbox] at hmem
      exact absurd hmem List.not_mem_nil
  | cons cmd rest ih =>
      by_cases hdone : n.worker.done = true
      · exact exists_reaped_of_done lib answers hclosing hlast hdone
      · obtain ⟨c₁, hway, hphase, hlength, hlast₁⟩ := exists_last_sent lib answers hlast
        have hn₁ := List.getLast?_eq_getElem? ▸ hlast₁
        let r := n.worker.handler.run (answers c₁) c₁.procs cmd
        let n₂ : Node :=
          { n with
            worker := { handler := r.1, inbox := rest, outbox := r.2.2, done := cmd = .cleanup } }
        let c₂ : Console :=
          { c₁ with procs := r.2.1, nodes := c₁.nodes.set (c₁.nodes.length - 1) n₂ }
        have hnext : c₁.next lib (.work (c₁.nodes.length - 1) (answers c₁)) c₂ := by
          refine Option.bind_eq_some_iff.2 ⟨_, hn₁,
            Option.bind_eq_some_iff.2 ⟨(n₂.worker, r.2.1), ?_, rfl⟩⟩
          rw [Worker.work]
          simp only [Bool.eq_false_of_not_eq_true hdone, hinbox]
          rfl
        have hfar₂ : n₂.worker.done = true ∨ .cleanup ∈ n₂.worker.inbox := by
          rw [hinbox] at hfar
          rcases List.mem_cons.1 (hfar.resolve_left hdone) with rfl | hmem
          · exact Or.inl rfl
          · exact Or.inr hmem
        obtain ⟨c', hway', hphase', hlength'⟩ :=
          ih (c := c₂) (hphase.trans hclosing) (getLast?_set hlast₁ n₂) hfar₂ rfl
        refine ⟨c', (hway.trans (.of_next hnext rfl)).trans hway', hphase', ?_⟩
        rw [hlength', ← hlength]
        exact List.length_set

/-- A console that leaves gets to its end, row by row. -/
theorem exists_finished (hclosing : c.phase = .closing false) :
    ∃ c', Closable lib answers c c' ∧ c'.phase = .finished := by
  induction hlength : c.nodes.length generalizing c with
  | zero =>
      have hlast : c.nodes.getLast? = none :=
        List.getLast?_eq_none_iff.2 (List.length_eq_zero_iff.1 hlength)
      have hnext : c.next lib .cleanup { c with phase := .finished } := by
        rw [Console.next, Console.step, if_pos hclosing, Console.cleanup, hlast]
      exact ⟨_, .of_next hnext trivial, rfl⟩
  | succ count ih =>
      have hsome := List.getLast?_isSome.2 (List.ne_nil_of_length_eq_add_one hlength)
      obtain ⟨n, hlast⟩ := Option.isSome_iff_exists.1 hsome
      let c₁ : Console :=
        { c with
          nodes := c.nodes.set (c.nodes.length - 1) (n.tell .cleanup)
          phase := .closing true }
      have hnext : c.next lib .cleanup c₁ := by
        rw [Console.next, Console.step, if_pos hclosing, Console.cleanup, hlast]
      have hasked : .cleanup ∈ (n.tell .cleanup).worker.inbox :=
        List.mem_append_right _ List.mem_cons_self
      obtain ⟨c₂, hway, hphase, hless⟩ :=
        exists_reaped lib answers (c := c₁) rfl (getLast?_set hlast _) (Or.inr hasked)
      have hlength₁ : c₁.nodes.length = count + 1 := List.length_set.trans hlength
      obtain ⟨c', hway', hfinished⟩ := ih hphase (by omega)
      exact ⟨c', ((Closable.of_next hnext trivial).trans hway).trans hway', hfinished⟩

variable {lib}

/-- **A console that leaves can get to its end**, from wherever a run left it, whatever was told to
the workers before and whatever they hear from now on, and every managed server was told to shut
down there. -/
theorem leaving_ends (hrun : ConsoleRun lib content h c) {told : Bool}
    (hclosing : c.phase = .closing told) :
    ∃ h' c', ConsoleRun lib content (h' ++ h) c' ∧ (∀ st ∈ h', Closes answers st) ∧
      c'.phase = .finished ∧ ∀ s ∈ c'.procs.managed, s.told = true := by
  obtain ⟨c', ⟨h', hrun', hcloses⟩, hfinished⟩ :
      ∃ c', Closable lib answers c c' ∧ c'.phase = .finished := by
    cases told with
    | false => exact exists_finished lib answers hclosing
    | true =>
        obtain ⟨hne, hlast⟩ := hrun.asked hclosing
        obtain ⟨n, hn⟩ := Option.isSome_iff_exists.1 (List.getLast?_isSome.2 hne)
        have hn' := List.getLast?_eq_getElem? ▸ hn
        have hfar := hlast _ n hn' (Nat.sub_add_cancel (List.length_pos_iff.2 hne))
        obtain ⟨c₁, hway, hphase, _⟩ := exists_reaped lib answers hclosing hn hfar
        obtain ⟨c', hway', hfinished⟩ := exists_finished lib answers hphase
        exact ⟨c', hway.trans hway', hfinished⟩
  obtain ⟨calls, init, hnew, hrun⟩ := hrun
  have hwhole : ConsoleRun lib content (h' ++ h) c' := ⟨calls, init, hnew, hrun.append hrun'⟩
  obtain ⟨count, hplanned⟩ := hwhole.planned
  exact ⟨h', c', hwhole, hcloses, hfinished, hplanned.managing.finished hfinished⟩

end

/-- The console with three rows is left after one of them was restarted. -/
theorem leaving_ends_restartedAndLeft : ∃ h c, ConsoleRun .sample [] h c ∧
    c.nodes.length = 3 ∧ c.phase = .closing false ∧ ∃ h' c', ConsoleRun .sample [] (h' ++ h) c' ∧
      c'.phase = .finished ∧ ∀ s ∈ c'.procs.managed, s.told = true := by
  obtain ⟨h, c, hrun, hrows, hclosing⟩ := ConsoleRun.exists_of_replay .sample [] restartedAndLeft
    (fun _ c => c.nodes.length = 3 ∧ c.phase = .closing false) (by decide +kernel)
  obtain ⟨h', c', hrun', _, hfinished, htold⟩ := leaving_ends (fun _ => .sample []) hrun hclosing
  exact ⟨h, c, hrun, hrows, hclosing, h', c', hrun', hfinished, htold⟩

end Repl
end RaftPlayground
