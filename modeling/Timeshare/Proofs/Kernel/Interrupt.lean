import Timeshare.Kernel.Interrupt
import Timeshare.Proofs.Kernel.Process
import Timeshare.Proofs.Process.Order

namespace Timeshare

/-!
# Interrupts of a kernel in order

* `Kernel.Sound.takeWaiting` — the process that an input or output is for leaves the wait queue, or
  there is no such process.
* `Kernel.Sound.releaseAll`, `Kernel.Sound.terminateAll` — the loops of a shutdown empty their queues,
  with turns to spare.  The first one sorts all processes by their priorities.
* `Kernel.Sound.interrupt` — no interrupt can fail, except for one that asks for a program.
-/

namespace Kernel

open Timeshare.Action

variable {k : Kernel} {free : List FreeBlock} {ready waiting held : List Record} {r : Record}

/-! ### Completions -/

/-- A process that is found is taken, also if it waits for something else than `event`; then there
    is a notice. -/
theorem exec_takeWaiting_some {k' : Kernel} {pid : Word} (event : WaitReason)
    (h : exec (removeWaiting pid) k = (.ok r, k')) :
    exec (takeWaiting pid event) k = (.ok (some r), k') := by
  rw [takeWaiting, exec_bind_ok (exec_observe _ _), h]
  refine (exec_bind_ok (exec_get k')).trans ?_
  by_cases hreason : r.reason? k'.memory = some event
  · simp only [hreason, ne_eq, not_true_eq_false, if_false]
    rfl
  · simp only [hreason, ne_eq, not_false_eq_true, if_true]
    rfl

/-- A number that is not found is no fault for a completion. -/
theorem exec_takeWaiting_none {k' : Kernel} {pid : Word} (event : WaitReason)
    (h : exec (removeWaiting pid) k = (.error .pidNotFound, k')) :
    exec (takeWaiting pid event) k = (.ok none, k') := by
  rw [takeWaiting, exec_bind_ok (exec_observe _ _), h]
  rfl

namespace Sound

/-- The first waiting process with the number `pid` leaves its queue and is held, whatever it waits
    for, or no waiting process has the number and nothing changes. -/
theorem takeWaiting (h : Sound k free ready waiting held) (pid : Word) (event : WaitReason) :
    ((∀ p ∈ waiting, p.pid k.memory ≠ pid)
        ∧ exec (Kernel.takeWaiting pid event) k = (.ok none, k)) ∨
      ∃ before r after k', waiting = before ++ r :: after ∧ (∀ p ∈ before, p.pid k.memory ≠ pid)
        ∧ r.pid k.memory = pid ∧ exec (Kernel.takeWaiting pid event) k = (.ok (some r), k')
        ∧ SameUser k k' ∧ Sound k' free ready (before ++ after) (r :: held)
        ∧ Record.Kept (ready ++ waiting ++ held) k.memory k'.memory := by
  cases hfind : waiting.find? (·.pid k.memory = pid) with
  | none =>
    have hpid : ∀ p ∈ waiting, p.pid k.memory ≠ pid := by simpa using hfind
    exact .inl ⟨hpid, exec_takeWaiting_none event (h.removeWaiting_none hpid)⟩
  | some r =>
    obtain ⟨hr, before, after, rfl, hbefore⟩ := List.find?_eq_some_iff_append.mp hfind
    have hpid : r.pid k.memory = pid := by simpa using hr
    have hne : ∀ p ∈ before, p.pid k.memory ≠ pid := by simpa using hbefore
    obtain ⟨k', hremove, hsame, h', hlinks⟩ := h.removeWaiting_first hne hpid
    -- The links of waiting processes may change, and no other slot of a process.
    have hqueued : ∀ x ∈ before ++ r :: after, x ∈ ready ++ (before ++ r :: after) := fun x hx =>
      List.mem_append_right _ hx
    exact .inr ⟨before, r, after, k', rfl, hne, hpid, exec_takeWaiting_some event hremove,
      ⟨hsame, h.frame_links hlinks hqueued⟩, h', h.kept_links hlinks hqueued⟩

/-- A process that has left the wait queue becomes ready, after a change `f` of its record.  In the
    record just this change shows, besides where the process stands. -/
theorem release {before after : List Record} {k₁ : Kernel}
    (h₁ : Sound k₁ free ready (before ++ after) [r])
    (hkept : Record.Kept (ready ++ (before ++ r :: after) ++ []) k.memory k₁.memory)
    {f : Memory → Memory} (hf : ∀ m, Memory.SameOn (· ∉ r.span) m (f m))
    (hreason : r.reason? (f k₁.memory) = some .none) :
    ∃ ahead behind k₂ k', r.Place k'.memory ready ahead behind
      ∧ exec (Kernel.modifyMemory f) k₁ = (.ok (), k₂)
      ∧ exec (Kernel.makeReady r) k₂ = (.ok (), k') ∧ SameUser k₁ k'
      ∧ Sound k' free (ahead ++ r :: behind) (before ++ after) []
      ∧ Record.Kept (ready ++ (before ++ after)) k.memory k'.memory
      ∧ (∀ s, s.isScheduling = false → r.get k₁.memory s = r.get k.memory s)
      ∧ ∀ s, s.isScheduling = false → r.get k'.memory s = r.get (f k₁.memory) s := by
  obtain ⟨ahead, behind, k₂, k', hplace, hchange, hmake, hsame, h', hkept', hslots⟩ :=
    h₁.resume hf hreason
  rw [List.append_nil] at hkept hkept'
  refine ⟨ahead, behind, k₂, k', hplace, hchange, hmake, hsame, h', ?_, fun s hs => ?_, hslots⟩
  -- The process itself is the only one whose record is not kept.
  · refine (hkept.mono fun x hx => ?_).trans hkept'
    simp only [List.mem_append, List.mem_cons] at hx ⊢
    tauto
  · exact hkept.get r (by simp) s (Slot.ne_of_isScheduling hs).1

/-- **Input.**  A character is delivered to a waiting process, which is ready then, or nothing
    happens.  The character is in the register of results, `.gpr .r1`. -/
theorem deliverInput (h : Sound k free ready waiting []) (pid : Word) (input : Char) :
    exec (Kernel.deliverInput pid input) k = (.ok (.pidNotFound pid), k) ∨
      ∃ before r after ahead behind k', waiting = before ++ r :: after ∧ r.pid k.memory = pid
        ∧ r.Place k'.memory ready ahead behind
        ∧ exec (Kernel.deliverInput pid input) k = (.ok (.inputDelivered pid), k')
        ∧ SameUser k k' ∧ Sound k' free (ahead ++ r :: behind) (before ++ after) []
        ∧ Record.Kept (ready ++ (before ++ after)) k.memory k'.memory
        ∧ ∀ s, s.isScheduling = false →
          r.get k'.memory s = if s = .gpr .r1 then Word.ofChar input else r.get k.memory s := by
  rcases h.takeWaiting pid .inputCompletion with
    ⟨-, htake⟩ | ⟨before, r, after, k₁, rfl, -, hpid, htake, hsame₁, h₁, hkept₁⟩
  · refine .inl ?_
    rw [Kernel.deliverInput, exec_bind_ok htake]
    rfl
  · have hwithin := h₁.ledger.within h₁.fits (x := r) (by simp)
    obtain ⟨ahead, behind, _, k₂, hplace, hchange, hmake, hsame₂, h₂, hkept₂, htaken, hslots⟩ :=
      h₁.release hkept₁ (f := fun m => r.setReason (r.set m (.gpr .r1) (Word.ofChar input)) .none)
        (fun m => Record.sameOn_set.trans Record.sameOn_set)
        (Record.reason?_setReason h₁.fits hwithin .none)
    refine .inr ⟨before, r, after, ahead, behind, k₂, rfl, hpid, hplace, ?_, hsame₁.trans hsame₂, h₂,
      hkept₂, fun s hs => ?_⟩
    · rw [Kernel.deliverInput, exec_bind_ok htake]
      simp only []
      rw [exec_bind_ok hchange, exec_bind_ok hmake]
      rfl
    -- The character is written before the reason, into another slot.
    · obtain ⟨-, -, hreason⟩ := Slot.ne_of_isScheduling hs
      rw [hslots s hs, Record.setReason, Record.get_set_of_ne hreason.symm]
      by_cases hgpr : s = .gpr .r1
      · rw [if_pos hgpr, hgpr, Record.get_set_self h₁.fits hwithin]
      · rw [if_neg hgpr, Record.get_set_of_ne (Ne.symm hgpr), htaken s hs]

/-- **Output.**  A waiting process is told that its output was shown, and is ready then, or nothing
    happens.  What is reported is the content of the register of results, `.gpr .r1`. -/
theorem deliverOutput (h : Sound k free ready waiting []) (pid : Word) :
    exec (Kernel.deliverOutput pid) k = (.ok (.pidNotFound pid), k) ∨
      ∃ before r after ahead behind k', waiting = before ++ r :: after ∧ r.pid k.memory = pid
        ∧ r.Place k'.memory ready ahead behind
        ∧ exec (Kernel.deliverOutput pid) k = (.ok (.output pid (r.get k.memory (.gpr .r1))), k')
        ∧ SameUser k k' ∧ Sound k' free (ahead ++ r :: behind) (before ++ after) []
        ∧ Record.Kept (ready ++ (before ++ after)) k.memory k'.memory
        ∧ ∀ s, s.isScheduling = false → r.get k'.memory s = r.get k.memory s := by
  rcases h.takeWaiting pid .outputCompletion with
    ⟨-, htake⟩ | ⟨before, r, after, k₁, rfl, -, hpid, htake, hsame₁, h₁, hkept₁⟩
  · refine .inl ?_
    rw [Kernel.deliverOutput, exec_bind_ok htake]
    rfl
  · have hwithin := h₁.ledger.within h₁.fits (x := r) (by simp)
    obtain ⟨ahead, behind, _, k₂, hplace, hchange, hmake, hsame₂, h₂, hkept₂, htaken, hslots⟩ :=
      h₁.release hkept₁ (f := (r.setReason · .none)) (fun m => Record.sameOn_set)
        (Record.reason?_setReason h₁.fits hwithin .none)
    refine .inr ⟨before, r, after, ahead, behind, k₂, rfl, hpid, hplace, ?_, hsame₁.trans hsame₂, h₂,
      hkept₂, fun s hs => ?_⟩
    · rw [← htaken _ rfl, Kernel.deliverOutput, exec_bind_ok htake]
      simp only []
      rw [exec_bind_ok (exec_get _), exec_bind_ok hchange, exec_bind_ok hmake]
      rfl
    · obtain ⟨-, -, hreason⟩ := Slot.ne_of_isScheduling hs
      rw [hslots s hs, Record.setReason, Record.get_set_of_ne hreason.symm, htaken s hs]

/-! ### Shutdown -/

/-- The waiting processes become ready.  This sorts them in behind those that are ready already
    (`Record.byPriority`), and all records keep what they say of their processes. -/
theorem releaseAll (h : Sound k free ready waiting []) {fuel : Nat} (hfuel : waiting.length < fuel) :
    ∃ k', exec (Kernel.releaseAll fuel) k = (.ok (), k') ∧ SameUser k k'
      ∧ Sound k' free (Record.byPriority k.memory (ready ++ waiting)) [] []
      ∧ ∀ p ∈ ready ++ waiting, ∀ s, s.isScheduling = false →
        p.get k'.memory s = p.get k.memory s := by
  induction waiting generalizing k ready fuel with
  | nil =>
    obtain ⟨fuel, rfl⟩ := Nat.exists_eq_add_one.mpr hfuel
    refine ⟨k, ?_, SameUser.refl k, ?_, fun _ _ _ _ => rfl⟩
    · rw [Kernel.releaseAll, exec_bind_ok h.popWaiting_nil]
      rfl
    · rw [List.append_nil, ← Record.eq_byPriority (fun _ => rfl) h.standing.sorted]
      exact h
  | cons r waiting ih =>
    obtain ⟨fuel, rfl⟩ := Nat.exists_eq_add_one.mpr (Nat.zero_lt_of_lt hfuel)
    -- One process moves from the wait queue to the ready queue, and the rest follows by induction.
    obtain ⟨k₁, hpop, hsame₁, h₁, hlinks⟩ := h.popWaiting_cons
    have hwithin := h₁.ledger.within h₁.fits (x := r) (by simp)
    have hqueued : ∀ x ∈ r :: waiting, x ∈ ready ++ r :: waiting := fun x hx =>
      List.mem_append_right _ hx
    have hfirst : SameUser k k₁ := ⟨hsame₁, h.frame_links hlinks hqueued⟩
    obtain ⟨ahead, behind, _, k₂, hplace, hchange, hmake, hsame₂, h₂, hkept, htaken, hslots⟩ :=
      (show Sound k₁ free ready ([] ++ waiting) [r] from h₁).release
        (h.kept_links hlinks hqueued) (f := (r.setReason · .none)) (fun m => Record.sameOn_set)
        (Record.reason?_setReason h₁.fits hwithin .none)
    obtain ⟨k₃, hrest, hsame₃, h₃, hsaid⟩ := ih h₂ (Nat.lt_of_succ_lt_succ hfuel)
    have hmoved : ∀ p ∈ ready ++ r :: waiting, ∀ s, s.isScheduling = false →
        p.get k₂.memory s = p.get k.memory s := by
      intro p hp s hs
      obtain ⟨hnext, -, hreason⟩ := Slot.ne_of_isScheduling hs
      rcases List.mem_cons.mp (List.perm_middle.mem_iff.mp hp) with rfl | hp
      · rw [hslots s hs, Record.setReason, Record.get_set_of_ne hreason.symm, htaken s hs]
      · exact hkept.get p hp s hnext
    -- It has got its place, which is that of the last one to come.
    have hsorted : Record.byPriority k₂.memory (ahead ++ r :: behind ++ waiting)
        = Record.byPriority k.memory (ready ++ r :: waiting) := by
      rw [(hplace.sameRanks.append_right waiting).byPriority_eq, List.append_assoc,
        List.singleton_append]
      exact Record.byPriority_congr fun p hp => hmoved p hp .priority rfl
    refine ⟨k₃, ?_, (hfirst.trans hsame₂).trans hsame₃, hsorted ▸ h₃, fun p hp s hs => ?_⟩
    · rw [Kernel.releaseAll, exec_bind_ok hpop]
      simp only []
      rw [exec_bind_ok hchange, exec_bind_ok hmake, hrest]
    · rw [hsaid p ?_ s hs, hmoved p hp s hs]
      obtain ⟨rfl, -, -⟩ := hplace
      simp only [List.mem_append, List.mem_cons] at hp ⊢
      tauto

/-- The ready processes end, and their numbers are reported in the order of the queue. -/
theorem terminateAll (h : Sound k free ready waiting []) {fuel : Nat} (hfuel : ready.length < fuel) :
    ∃ free' k', exec (Kernel.terminateAll fuel) k = (.ok (ready.map (·.pid k.memory)), k')
      ∧ SameSetting k k' ∧ Sound k' free' [] waiting [] ∧ k'.machine.cpu = k.machine.cpu
      ∧ (k.running = none → k'.running = none) := by
  -- One process after the other, each from the front of the queue.
  induction ready generalizing k free fuel with
  | nil =>
    obtain ⟨fuel, rfl⟩ := Nat.exists_eq_add_one.mpr hfuel
    refine ⟨free, k, ?_, SameSetting.refl k, h, rfl, id⟩
    rw [Kernel.terminateAll, exec_bind_ok h.popReady_nil]
    rfl
  | cons r ready ih =>
    obtain ⟨fuel, rfl⟩ := Nat.exists_eq_add_one.mpr (Nat.zero_lt_of_lt hfuel)
    obtain ⟨k₁, hpop, hsame₁, h₁, hlinks⟩ := h.popReady_cons
    obtain ⟨k₂, hterminate, hsame₂, hstack, h₂, hframe⟩ := h₁.terminate
    obtain ⟨free', k₃, hrest, hsame₃, h₃, hcpu, hfree⟩ := ih h₂ (Nat.lt_of_succ_lt_succ hfuel)
    refine ⟨free', k₃, ?_, (hsame₁.toSameSetting.trans hsame₂).trans hsame₃, h₃,
      (hcpu.trans hstack.cpu).trans hsame₁.cpu, fun hrunning => ?_⟩
    swap
    · have hfirst : k₁.running = none := hsame₁.running.trans hrunning
      exact hfree (by rw [hstack.running, hfirst, if_neg (by simp)])
    -- Neither the links nor the end of the process show in the numbers of the others.
    have hpid : ∀ p ∈ r :: ready, p.pid k₁.memory = p.pid k.memory := fun p hp =>
      hlinks.slots p hp .pid (by simp)
    have hkept := (h₁.untouched_others (hframe.mono fun a ha =>
      ⟨fun huser => h₁.valid.layout.not_mem_osPool huser ha.1, ha.2⟩)).kept
    have hothers : ∀ p ∈ ready, p.pid k₂.memory = p.pid k.memory := fun p hp =>
      (hkept.get p (List.mem_append_left _ (List.mem_append_left _ hp)) .pid (by simp)).trans
        (hpid p (List.mem_cons_of_mem _ hp))
    rw [Kernel.terminateAll, exec_bind_ok hpop]
    simp only []
    rw [exec_bind_ok (exec_get _), exec_bind_ok hterminate, exec_bind_ok hrest, List.map_cons,
      hpid r List.mem_cons_self, List.map_congr_left hothers]
    rfl

/-- **Shutdown.**  All processes end, in the order of `Record.byPriority`, and their numbers are
    reported in it. -/
theorem shutDown (h : Sound k free ready waiting []) :
    ∃ free' k', exec Kernel.shutDown k
        = (.ok (.shutDown ((Record.byPriority k.memory (ready ++ waiting)).map (·.pid k.memory))), k')
      ∧ k'.config = k.config ∧ k'.catalog = k.catalog ∧ k'.isShutDown = true
      ∧ Sound k' free' [] [] [] ∧ k'.nextPid = k.nextPid ∧ (k.running = none → k'.running = none)
      ∧ k'.machine.cpu = k.machine.cpu := by
  obtain ⟨k₁, hrelease, hsame₁, h₁, hsaid⟩ := h.releaseAll (Nat.lt_succ_of_le h.length_le.2)
  obtain ⟨free', k₂, hterminate, hsame₂, h₂, hcpu, hfree⟩ :=
    h₁.terminateAll (Nat.lt_succ_of_le h₁.length_le.1)
  have hsame := hsame₁.toSameSetting.trans hsame₂
  have hpids : ∀ p ∈ Record.byPriority k.memory (ready ++ waiting), p.pid k₁.memory = p.pid k.memory :=
    fun p hp => hsaid p ((Record.byPriority_perm _ _).mem_iff.mp hp) .pid rfl
  refine ⟨free', { k₂ with isShutDown := true }, ?_, hsame.config, hsame.catalog, rfl,
    ⟨h₂.toFramed.of_frame rfl, h₂.ledger, h₂.standing⟩, hsame.nextPid,
    fun hrunning => hfree (hsame₁.running.trans hrunning), hcpu.trans hsame₁.cpu⟩
  rw [Kernel.shutDown, exec_bind_ok hrelease, exec_bind_ok hterminate,
    exec_bind_ok (exec_modify _ _), exec_bind_ok (exec_note _ _), List.map_congr_left hpids]
  rfl

/-- **Interrupts.**  None can fail, except for one that asks for a program (`.runProgram`). -/
theorem interrupt (h : Sound k free ready waiting []) {i : Interrupt}
    (hi : ∀ program priority, i ≠ .runProgram program priority) :
    ∃ outcome free' ready' waiting' k', exec (Kernel.interrupt i) k = (.ok outcome, k')
      ∧ k'.config = k.config ∧ k'.catalog = k.catalog ∧ Sound k' free' ready' waiting' [] := by
  cases i with
  | none => exact ⟨_, free, ready, waiting, k, rfl, rfl, rfl, h⟩
  | runProgram program priority => exact absurd rfl (hi program priority)
  | shutdown =>
    obtain ⟨free', k', hexec, hconfig, hcatalog, -, h', -⟩ := h.shutDown
    exact ⟨_, free', [], [], k', hexec, hconfig, hcatalog, h'⟩
  | inputCompletion pid input =>
    rcases h.deliverInput pid input with hexec | ⟨_, _, _, _, _, k', -, -, -, hexec, hsame, h', -⟩
    · exact ⟨_, free, ready, waiting, k, hexec, rfl, rfl, h⟩
    · exact ⟨_, free, _, _, k', hexec, hsame.config, hsame.catalog, h'⟩
  | outputCompletion pid =>
    rcases h.deliverOutput pid with hexec | ⟨_, _, _, _, _, k', -, -, -, hexec, hsame, h', -⟩
    · exact ⟨_, free, ready, waiting, k, hexec, rfl, rfl, h⟩
    · exact ⟨_, free, _, _, k', hexec, hsame.config, hsame.catalog, h'⟩

end Sound

end Kernel

end Timeshare
