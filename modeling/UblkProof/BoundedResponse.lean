import UblkProof.BoundedDrain

/-! # Every request is answered

As long as nothing goes wrong (no cancellation, no failed system call, no negative completion,
and every `io_uring_enter` takes what it is offered), a tag does not stay with the worker.  A
completion posted while the worker is in the inner loop of `run` is drained in the same batch,
since the loop ends only when there is none left; one that is posted after that is drained in
the next.  `Flow.waitsFor` counts the statements and system calls until the kernel has the
tag's commit.

A worker in `epoll_wait` goes on only if there is something to report.  With a tag that is not with
the kernel there is: the tag's completion is unread (`Flow.Sound.unread_of_waiting`).
-/
namespace Ublk
open Runs
open Ublk.Ring (EnterReply)

section
variable {β : Type}

/-- What is offered to `io_uring_enter`. -/
def PC.offers : PC → Nat
  | .startEnter count | .submitEnter count => count.toNat
  | _ => 0

/-- Nothing goes wrong. -/
def Healthy (s : Core β) : Action → Prop
  | .enter reply => reply = .consumed s.pc.offers
  | .epoll (.failed _) | .cancelStore | .cancelWake => False
  | .post _ res _ => 0 ≤ res
  | _ => True

instance (s : Core β) : DecidablePred (Healthy s)
  | .enter reply => inferInstanceAs (Decidable (reply = .consumed s.pc.offers))
  | .epoll (.failed _) | .cancelStore | .cancelWake => inferInstanceAs (Decidable False)
  | .post _ res _ => inferInstanceAs (Decidable (0 ≤ res))
  | .epoll (.events _) | .epoll .interrupted | .work | .signal | .receive | .issue _ _
  | .respond _ => inferInstanceAs (Decidable True)

/-- The worker has looked at the completion queue for the last time in this batch. -/
def PC.closed : PC → Bool
  | .flush | .submitEnter _ | .waitCheck | .waitEpoll => true
  | _ => false

namespace Flow
variable {w : Worker} {bk : Backend β} {f f' : Flow β} {a : Action} {t : Nat}

/-! ## What health preserves -/

/-- Nothing has gone wrong: the worker runs, nobody has cancelled, every published entry is about to
be offered and no completion is negative. -/
structure Sound (f : Flow β) : Prop where
  running : ∀ exit, f.pc ≠ .done exit
  cancelled : f.cancelled = false ∧ f.efd = false
  queued : f.queued.length = f.pc.offers
  signs : ∀ c ∈ f.unread, 0 ≤ c.res
  early : f.pc.early = true → f.inflight = [] ∧ f.unread = []

theorem sound_boot (b : Worker.Boot β) : (boot b).Sound where
  running := nofun
  cancelled := ⟨rfl, rfl⟩
  queued := rfl
  signs := fun _ h => by cases h
  early := fun _ => ⟨rfl, rfl⟩

/-- A flush finds nothing left over and offers what was waiting. -/
theorem Flushing.offers {pc next : PC} (h : Flushing f pc next) :
    pc.offers = 0 ∧ next.offers = f.waiting.length ∧ (∀ exit, next ≠ .done exit) ∧
      (next.early = true → pc.early = true) := by
  cases h with
  | start hc => exact ⟨rfl, hc, nofun, fun _ => rfl⟩
  | submit hc _ => exact ⟨rfl, hc, nofun, nofun⟩
  | empty hw => exact ⟨rfl, by rw [hw]; rfl, nofun, nofun⟩

theorem Flushing.closed {pc next : PC} (h : Flushing f pc next) (hc : next.closed = true) :
    pc.closed = true := by
  cases h with
  | start _ => cases hc
  | empty _ | submit _ _ => rfl

theorem Entering.pc_eq {pc : PC} {count : UInt32} {wrap : Errno → UringError}
    (h : Entering pc count wrap) : pc = .startEnter count ∨ pc = .submitEnter count := by
  cases h
  · exact .inl rfl
  · exact .inr rfl

/-- The worker moves on, and nothing else. -/
theorem Sound.move {pc : PC} (h : f.Sound) (hok : Healthy f.toCore a)
    (hm : Move w f a f.pc pc) : Sound { f with pc := pc } := by
  have hq := h.queued
  have he := h.early
  have hr := h.running
  revert hm hq he hr
  generalize f.pc = pc₀
  intro hm hq he hr
  cases hm with
  | cancelled hc => rw [h.cancelled.1] at hc; cases hc
  | woken hefd => rw [h.cancelled.2] at hefd; cases hefd
  | epollFailed e => exact hok.elim
  | initDone _ => exact ⟨nofun, h.cancelled, hq, h.signs, he⟩
  | _ => exact ⟨nofun, h.cancelled, hq, h.signs, nofun⟩

theorem Sound.step (h : f.Sound) (hi : f.Inv w) (hok : Healthy f.toCore a)
    (hs : Step w bk f a f') : f'.Sound := by
  cases hs with
  | move hm => exact h.move hok hm
  | control hc =>
    cases hc with
    | signal _ | receive _ => exact ⟨h.running, h.cancelled, h.queued, h.signs, h.early⟩
    | cancelStore => exact hok.elim
    | cancelWake _ => exact hok.elim
  | fetch hpc _ =>
    have hq := h.queued
    rw [hpc] at hq
    exact ⟨nofun, h.cancelled, hq, h.signs, fun _ => h.early (by rw [hpc]; rfl)⟩
  | @publish next hp =>
    obtain ⟨hnone, hall, hrun, he⟩ := hp.offers
    refine ⟨hrun, h.cancelled, ?_, h.signs, fun hn => h.early (he hn)⟩
    have hq := h.queued
    show (f.queued ++ f.waiting).length = next.offers
    rw [List.length_append]
    omega
  | @enter count wrap reply he _ =>
    have hoffers : f.pc.offers = count.toNat := by
      rcases he.pc_eq with hpc | hpc <;> rw [hpc] <;> rfl
    obtain rfl : reply = .consumed count.toNat := hoffers ▸ hok
    have hnext : (Worker.afterEnter f.toCore ((EnterReply.consumed count.toNat).ret wrap)).1 =
        .waitCheck := by
      unfold Worker.afterEnter
      rcases he.pc_eq with hpc | hpc <;> rw [hpc] <;> rfl
    refine ⟨?_, h.cancelled, ?_, h.signs, ?_⟩
    · intro exit he
      rw [show _ = PC.waitCheck from hnext] at he
      cases he
    · show (f.queued.drop count.toNat).length = PC.offers _
      rw [hnext, ← hoffers, ← h.queued, List.drop_length]
      rfl
    · intro he
      rw [show _ = PC.waitCheck from hnext] at he
      cases he
  | @seen origin tag res c cs hpc hun =>
    have hres : ¬ res < 0 := by
      have := (hi.seen_eq hpc hun).2.2
      have hsign := h.signs c (by rw [hun]; exact List.mem_cons_self)
      rw [this]
      exact Int32.not_lt.mpr hsign
    have hq := h.queued
    rw [hpc] at hq
    refine ⟨?_, h.cancelled, ?_, fun c' hc' => h.signs c' ?_, ?_⟩
    · show ∀ exit, (if res < 0 then _ else _) ≠ _
      rw [if_neg hres]
      nofun
    · show f.queued.length = PC.offers (if res < 0 then _ else _)
      rw [if_neg hres]
      exact hq
    · rw [hun]
      exact List.mem_cons_of_mem c hc'
    · show PC.early (if res < 0 then _ else _) = true → _
      rw [if_neg hres]
      nofun
  | serve hpc _ _ | commit hpc =>
    have hq := h.queued
    rw [hpc] at hq
    exact ⟨nofun, h.cancelled, hq, h.signs, nofun⟩
  | issue hc =>
    refine ⟨h.running, h.cancelled, h.queued, h.signs, fun he => ?_⟩
    rw [(h.early he).1] at hc
    cases hc
  | respond _ _ => exact ⟨h.running, h.cancelled, h.queued, h.signs, h.early⟩
  | @post i c res flags hc =>
    refine ⟨h.running, h.cancelled, h.queued, fun c' hc' => ?_, fun he => ?_⟩
    · rcases List.mem_append.mp hc' with hold | hnew
      · exact h.signs c' hold
      · rw [List.mem_singleton.mp hnew]
        exact hok
    · rw [(h.early he).1] at hc
      cases hc

/-! ## Waiting for a tag -/

/-- How many statements and system calls the worker can execute before the kernel has the tag
`t` again.  A completion behind a closed batch waits for the whole next one. -/
def waitsFor (w : Worker) (t : Nat) (f : Flow β) : Nat :=
  w.stepsLeft f.waiting.length f.pc +
    if f.pc.closed ∧ t ∈ f.unread.map CQE.tag then 6 * w.depth.toNat + 4 else 0

/-- A closed batch is published and submitted. -/
theorem stepsLeft_closed {pc : PC} (h : pc.closed = true) (waiting : Nat) :
    w.stepsLeft waiting pc ≤ 3 := by
  cases pc with
  | flush | submitEnter _ | waitCheck | waitEpoll => exact Nat.le_of_ble_eq_true rfl
  | _ => cases h

theorem waitsFor_le (w : Worker) (t : Nat) (f : Flow β) :
    f.waitsFor w t ≤ 6 * w.depth.toNat + 7 := by
  have hopen := (w.left_le f.waiting.length f.pc).2.2
  rw [waitsFor]
  split_ifs with h
  · have := stepsLeft_closed (w := w) h.1 f.waiting.length
    omega
  · omega

/-- A tag that is not with the kernel is somewhere else. -/
theorem Inv.place (h : f.Inv w) (ht : t < w.depth.toNat) (hk : t ∉ f.inflight.map Command.tag) :
    t ∈ f.waiting.map SQE.tag ∨ t ∈ f.queued.map SQE.tag ∨ t ∈ f.unread.map CQE.tag ∨
      t ∈ w.hand f.pc := by
  have hmem : t ∈ f.tags w := by rw [h.tags]; exact Multiset.mem_range.mpr ht
  unfold Flow.tags at hmem
  simp only [Multiset.mem_add, Multiset.mem_coe] at hmem
  tauto

/-- At the top of `WaitCQE`, and in its `epoll_wait`, it is in a completion. -/
theorem Sound.unread_of_waiting (h : f.Sound) (hi : f.Inv w) (ht : t < w.depth.toNat)
    (hk : t ∉ f.inflight.map Command.tag) (hpc : f.pc = .waitCheck ∨ f.pc = .waitEpoll) :
    t ∈ f.unread.map CQE.tag := by
  have hwaiting : f.waiting = [] := by
    have hloc := hi.loc
    rcases hpc with hpc | hpc <;> rw [hpc] at hloc <;> exact hloc
  have hqueued : f.queued = [] := by
    have hlen := h.queued
    rcases hpc with hpc | hpc <;> rw [hpc] at hlen <;> exact List.length_eq_zero_iff.mp hlen
  rcases hi.place ht hk with hm | hm | hm | hm
  · rw [hwaiting] at hm; cases hm
  · rw [hqueued] at hm; cases hm
  · exact hm
  · rcases hpc with hpc | hpc <;> rw [hpc] at hm <;> cases hm

/-- **A batch is not closed over a completion.**  Apart from the step that opens the next batch,
a completion is behind a closed batch only if it was before. -/
theorem Sound.closed_step (h : f.Sound) (hok : Healthy f.toCore a)
    (hk : t ∉ f.inflight.map Command.tag) (hs : Step w bk f a f')
    (hc : f'.pc.closed = true ∧ t ∈ f'.unread.map CQE.tag) :
    f.pc.closed = true ∧ t ∈ f.unread.map CQE.tag := by
  obtain ⟨hpc', hun'⟩ := hc
  cases hs with
  | @move _ pc hm =>
    have hun : t ∈ f.unread.map CQE.tag := hun'
    have hpc' : pc.closed = true := hpc'
    refine ⟨?_, hun⟩
    revert hm
    generalize f.pc = pc₀
    intro hm
    cases hm with
    | block he | drained he => rw [he] at hun; cases hun
    | interrupted | events => rfl
    | _ => cases hpc'
  | control _ | issue _ | respond _ _ => exact ⟨hpc', hun'⟩
  | fetch hpc _ | serve hpc _ _ | commit hpc => cases hpc'
  | publish hp => exact ⟨hp.closed hpc', hun'⟩
  | enter he _ =>
    have hun : t ∈ f.unread.map CQE.tag := hun'
    refine ⟨?_, hun⟩
    rcases he.pc_eq with hpc | hpc
    · -- nothing has been posted before the first system call returns
      rw [(h.early (by rw [hpc]; rfl)).2] at hun
      cases hun
    · rw [hpc]
      rfl
  | @seen origin tag res c cs hpc hun =>
    have hpc' : PC.closed (if res < 0 then _ else _) = true := hpc'
    split_ifs at hpc' <;> cases hpc'
  | @post i c res flags hc =>
    refine ⟨hpc', ?_⟩
    have hun' : t ∈ (f.unread ++ [c.cqe res flags]).map CQE.tag := hun'
    rw [List.map_append, List.mem_append] at hun'
    rcases hun' with hold | hnew
    · exact hold
    · have htag : t = c.tag := List.mem_singleton.mp hnew
      exact absurd (htag ▸ List.mem_map_of_mem (List.mem_of_getElem? hc)) hk

theorem Move.ofWorker {pc pc' : PC} (h : Move w f a pc pc') : a.ofWorker = true := by
  cases h <;> rfl

/-- The kernel and the other goroutines do not move the worker. -/
theorem Step.others (hs : Step w bk f a f') (ha : a.ofWorker = false) :
    f'.pc = f.pc ∧ f'.waiting = f.waiting := by
  cases hs with
  | move hm => rw [hm.ofWorker] at ha; cases ha
  | control _ | issue _ | respond _ _ | post _ => exact ⟨rfl, rfl⟩
  | _ => cases ha

/-- The worker passes the check of `WaitCQE`. -/
theorem Sound.check_step (h : f.Sound) (hs : Step w bk f a f') (hpc : f.pc = .waitCheck)
    (ha : a.ofWorker = true) : f'.pc = .waitLoad := by
  cases hs with
  | @move _ pc hm =>
    rw [hpc] at hm
    cases hm with
    | cancelled hc => rw [h.cancelled.1] at hc; cases hc
    | check _ => rfl
  | control hc => cases hc <;> cases ha
  | publish hp => rw [hpc] at hp; cases hp
  | enter he _ => rw [hpc] at he; cases he
  | fetch hpc' _ | seen hpc' _ | serve hpc' _ _ | commit hpc' => rw [hpc] at hpc'; cases hpc'
  | issue _ | respond _ _ | post _ => cases ha

/-- **Each step of the worker brings the commit closer**, and no other delays it. -/
theorem Sound.waits (h : f.Sound) (hi : f.Inv w) (hok : Healthy f.toCore a)
    (ht : t < w.depth.toNat) (hk : t ∉ f.inflight.map Command.tag) (hs : Step w bk f a f') :
    f'.waitsFor w t + a.ofWorker.toNat ≤ f.waitsFor w t := by
  have hclosed := h.closed_step hok hk hs
  by_cases hpc : f.pc = .waitCheck
  · have hun := h.unread_of_waiting hi ht hk (.inl hpc)
    have hold : f.waitsFor w t = 1 + (6 * w.depth.toNat + 4) := by
      rw [waitsFor, if_pos ⟨by rw [hpc]; rfl, hun⟩, hpc]
      rfl
    rw [hold]
    cases ha : a.ofWorker with
    | false =>
      obtain ⟨hsame, hwaiting⟩ := hs.others ha
      have hone : w.stepsLeft f'.waiting.length f'.pc = 1 := by rw [hsame, hpc]; rfl
      rw [waitsFor, hone, Bool.toNat_false]
      split_ifs <;> omega
    | true =>
      have hload := h.check_step hs hpc ha
      rw [waitsFor, hload, if_neg (by rintro ⟨hc, -⟩; cases hc)]
      show 6 * (w.depth.toNat - _) + 4 + 0 + 1 ≤ _
      omega
  · have hspends := (hi.spends hs (.inl hpc)).steps
    rw [waitsFor, waitsFor]
    split_ifs with hc' hc
    · omega
    · exact absurd (hclosed hc') hc
    · omega
    · omega

end Flow

/-! ## The result -/

/-- While nothing goes wrong the worker has a next statement or system call.  That `epoll_wait`
returns is not said here: the machine lets it report events at any time. -/
theorem Worker.can_work_healthy (w : Worker) (bk : Backend β) {s : World β}
    (hp : s.pc ≠ .panicked) (hd : ∀ exit, s.pc ≠ .done exit) :
    ∃ a, a.ofWorker = true ∧ Healthy s.toCore a ∧ (w.step bk s a).isSome = true := by
  -- both system calls may take all they are offered
  have henter : ∀ (count : UInt32) (wrap : Errno → UringError),
      (enterWith s count wrap (.consumed count.toNat)).isSome = true := by
    intro count wrap
    rw [enterWith, if_pos (show EnterReply.Legal count (.consumed count.toNat) from Nat.le_refl _)]
    rfl
  cases hpc : s.pc with
  | startEnter count | submitEnter count =>
    refine ⟨.enter (.consumed count.toNat), rfl, ?_, ?_⟩
    · show _ = EnterReply.consumed s.pc.offers
      rw [hpc]
      rfl
    · simp only [step, enter, hpc]
      exact henter count _
  | waitEpoll =>
    refine ⟨.epoll (.events false), rfl, trivial, ?_⟩
    simp only [step, epoll, hpc]
    rfl
  | done exit => exact absurd hpc (hd exit)
  | panicked => exact absurd hpc hp
  | init tag | waitCheck | waitLoad | peek =>
    refine ⟨.work, rfl, trivial, ?_⟩
    simp only [step, work, hpc]
    split <;> rfl
  | _ =>
    refine ⟨.work, rfl, trivial, ?_⟩
    simp only [step, work, hpc]
    rfl

theorem Flow.sound_of_path {w : Worker} {bk : Backend β} {b : Worker.Boot β} {f : Flow β}
    {as : List Action} (h : Path (StepIf w bk Healthy) (boot b) as f) : f.Sound :=
  holds_of_path (P := Sound) (sound_boot b) (fun _ _ _ hi hf hok hs => hf.step hi hok hs) h

/-- **Every request is answered.**  In a run in which nothing goes wrong, take any state and any
tag that is not with the kernel: its completion has been posted, or the worker has it in hand,
or its commit is prepared.  Then the worker is not blocked: it has a next statement or system call,
and if that is `epoll_wait`, there is an unread completion to be reported.  It executes at most
`6 * depth + 7` statements and system calls before the kernel has the tag's next command, whatever
else the kernel posts meanwhile. -/
theorem response_bounded (w : Worker) (bk : Backend β) (b : Worker.Boot β) (hb : b.Fits w)
    (as : List Action) (s : World β) (h : w.Run bk Healthy b as s) (t : Nat)
    (ht : t < w.depth.toNat) :
    (t ∉ s.inflight.map Command.tag →
      (∃ a, a.ofWorker = true ∧ Healthy s.toCore a ∧ (w.step bk s a).isSome = true) ∧
        (s.pc = .waitEpoll → s.ring.peekCQE.isSome = true)) ∧
    ∀ bs s', Runs.Run (w.step bk)
        (fun s a => Healthy s.toCore a ∧ t ∉ s.inflight.map Command.tag) s bs s' →
      bs.countP Action.ofWorker ≤ 6 * w.depth.toNat + 7 := by
  obtain ⟨k, kc, hk, hkc, hle, hlec⟩ := hb.sizes
  obtain ⟨f, hp, hm, hi⟩ := (Models.boot hk hkc).follow Healthy (Flow.inv_boot w b) hle hlec h
  have hsound := Flow.sound_of_path hp
  have hpc : s.pc = f.pc := congrArg Core.pc hm.core
  refine ⟨fun hnot => ⟨w.can_work_healthy bk ?_ (hpc ▸ hsound.running), fun he => ?_⟩,
    fun bs s' hr => ?_⟩
  · intro hpanic
    have hloc := hi.loc
    rw [← hpc, hpanic] at hloc
    exact hloc
  · have hflight : s.inflight = f.inflight := congrArg Core.inflight hm.core
    have hun := hsound.unread_of_waiting hi ht (hflight ▸ hnot) (.inr (hpc ▸ he))
    rcases hm.peek with ⟨hnil, -⟩ | ⟨head, -, hpeek, -⟩
    · rw [hnil] at hun
      cases hun
    · rw [hpeek]
      rfl
  · obtain ⟨f', hp', -, -⟩ := hm.follow
      (fun s a => Healthy s a ∧ t ∉ s.inflight.map Command.tag) hi hle hlec hr
    have hcount := hp'.countP_le Action.ofWorker (Flow.waitsFor w t)
      (I := fun f => f.Inv w ∧ f.Sound) ⟨hi, hsound⟩
      (fun f a f' ⟨hi, hf⟩ hs => ⟨hi.step hs.2, hf.step hi hs.1.1 hs.2⟩)
      fun f a f' ⟨hi, hf⟩ hs => hf.waits hi hs.1.1 ht hs.1.2 hs.2
    have hbound := f.waitsFor_le w t
    omega

/-- The inner loop and the submission of a batch of one. -/
def Worker.smallAnswer : List Action := List.replicate 9 .work ++ [.enter (.consumed 1)]

/-- The small worker answers the completion of tag 2. -/
theorem response_bounded_small : ∃ s s' : World Unit,
    Worker.small.Run fullBackend Healthy Worker.smallBoot
      (Worker.smallStart (.consumed 3) ++ [.post 2 0 0]) s ∧
    Runs.Run (Worker.small.step fullBackend)
      (fun s a => Healthy s.toCore a ∧ 2 ∉ s.inflight.map Command.tag) s Worker.smallAnswer s' ∧
    2 ∈ s'.inflight.map Command.tag ∧
    Worker.smallAnswer.countP Action.ofWorker ≤ 6 * Worker.small.depth.toNat + 7 := by
  have hex : ∃ s : World Unit, Worker.small.Run fullBackend Healthy Worker.smallBoot
      (Worker.smallStart (.consumed 3) ++ [.post 2 0 0]) s ∧
      (exec (Worker.small.step fullBackend)
        (fun s a => Healthy s.toCore a ∧ 2 ∉ s.inflight.map Command.tag) s
        Worker.smallAnswer).any (fun s' => 2 ∈ s'.inflight.map Command.tag) = true :=
    exists_run_of_exec (fun s : World Unit => (exec (Worker.small.step fullBackend)
      (fun s a => Healthy s.toCore a ∧ 2 ∉ s.inflight.map Command.tag) s
      Worker.smallAnswer).any (fun s' => 2 ∈ s'.inflight.map Command.tag) = true)
      (by decide +kernel)
  obtain ⟨s, hr, hrest⟩ := hex
  obtain ⟨s', hr', hmem⟩ := exists_run_of_exec
    (fun s' : World Unit => 2 ∈ s'.inflight.map Command.tag) hrest
  exact ⟨s, s', hr, hr', hmem,
    (response_bounded _ _ _ Worker.small_fits _ s hr 2 (by decide)).2 _ s' hr'⟩

end
end Ublk
