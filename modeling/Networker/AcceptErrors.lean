import Networker.AcceptorModel

/-!
Errors of `accept(2)`. `setNonBlockAndCloseOnExec` runs before `errno` is read, so that
the `switch` of `sockets::accept` only ever sees `EBADF`.
-/

namespace Networker.Acceptor

open CheckedRuns Descriptors

variable {α : Type}

/-- `idleFd_` is what the last `open(2)` returned, and names the one file the acceptor owns. -/
def OwnsIdle (s : Acceptor α) : Prop :=
  s.idleFd_ = s.opened ∧
    ∀ k, k < s.files.created ∧ k ∉ s.files.closed ∧ k ∉ s.files.handed ↔
      ∃ fd f, s.idleFd_ = some fd ∧ s.files.table fd = some f ∧ f.serial = k

/-- What a readable event must not break, whatever the outcomes of its system calls. -/
structure Survives (s : Acceptor α) (e : Readable α) : Prop where
  aborts : s.handleRead e = .error .abort → ∃ err, e.accept = .error err ∧ err.transient = false
  returns : ∀ err, e.accept = .error err → err.transient = true →
    ∃ t, s.socketsAccept e = .ok (none, t) ∧ t.errno = err
  replaces : ∀ t, s.handleRead e = .ok t → (t.replaced = s.replaced + 1 ↔ e.accept = .error .EMFILE)
  disposed : ∀ t, s.handleRead e = .ok t → t.files.stray = [] ∧
    ∀ k ∈ t.accepted, t.files.closed.count k + t.files.handed.count k = 1
  idle : ∀ t, s.handleRead e = .ok t → t.OwnsIdle

section Accept

variable {s t : Acceptor α} {e : Readable α}

theorem setNonBlockAndCloseOnExec_none (s : Acceptor α) :
    s.setNonBlockAndCloseOnExec none = { s with errno := .EBADF } := rfl

theorem setNonBlockAndCloseOnExec_open {fd : ℕ} {f : OpenFile Flags} (h : s.files.table fd = some f) :
    s.setNonBlockAndCloseOnExec (some fd) =
      { s with files := s.files.modify fd fun _ => { O_NONBLOCK := true, FD_CLOEXEC := true } } := by
  simp [setNonBlockAndCloseOnExec, fcntl, h, Descriptors.modify]

-- `fcntl(-1)` has replaced the error by the time `savedErrno` is read
theorem socketsAccept_error {err : Errno} (h : e.accept = .error err) : s.socketsAccept e = .error .abort := by
  simp [socketsAccept, h, accept2, setNonBlockAndCloseOnExec_none]

theorem handleRead_error {err : Errno} (h : e.accept = .error err) : s.handleRead e = .error .abort := by
  simp [handleRead, socketsAccept_error h]

theorem socketsAccept_ok {fd : ℕ} {addr : α} (h : e.accept = .ok (fd, addr)) :
    s.socketsAccept e = .ok (some (fd, addr),
      { s with
        files := (s.files.create fd {}).modify fd fun _ => { O_NONBLOCK := true, FD_CLOEXEC := true }
        accepted := s.accepted ++ [s.files.created] }) := by
  simp only [socketsAccept, h, accept2, Option.map_some]
  rw [setNonBlockAndCloseOnExec_open (f := ⟨s.files.created, {}⟩) (by simp [Descriptors.create])]

theorem handleRead_inv (hs : s.handleRead e = .ok t) :
    ∃ fd addr files, e.accept = .ok (fd, addr) ∧
      files = (s.files.create fd {}).modify fd (fun _ => { O_NONBLOCK := true, FD_CLOEXEC := true }) ∧
      ((s.newConnectionCallback_ = true ∧ t = { s with
          files := files.hand fd, accepted := s.accepted ++ [s.files.created], passed := s.passed ++ [(fd, addr)] }) ∨
        (s.newConnectionCallback_ = false ∧ t = { s with
          files := files.close fd, accepted := s.accepted ++ [s.files.created] })) := by
  cases ha : e.accept with
  | error err =>
    rw [handleRead_error ha] at hs
    cases hs
  | ok conn =>
    obtain ⟨fd, addr⟩ := conn
    refine ⟨fd, addr, _, rfl, rfl, ?_⟩
    simp only [handleRead, socketsAccept_ok ha, ok_bind] at hs
    split_ifs at hs with hc
    · cases hs
      exact Or.inl ⟨hc, rfl⟩
    · cases hs
      exact Or.inr ⟨by simpa using hc, rfl⟩

end Accept

section Runs

variable {s t : Acceptor α}

/-- Between events `idle` is all the acceptor holds, and no file that `accept(2)` returned is held. -/
structure Settled (s : Acceptor α) (idle : List (ℕ × ℕ)) : Prop where
  custody : Custody s.files idle
  numbers : idle.map Prod.fst = s.idleFd_.toList
  opened : s.idleFd_ = s.opened
  accepted : ∀ k ∈ s.accepted, k < s.files.created ∧ k ∉ idle.map Prod.snd

theorem construct_settled [Build] {result : Except Errno ℕ} (h : construct result = .ok s) : ∃ idle, Settled s idle := by
  have ht := assert_bind_ok h
  cases ht
  cases result with
  | ok fd => exact ⟨_, initial_custody.create rfl _, rfl, rfl, by simp [openIdle]⟩
  | error e => exact ⟨[], initial_custody, rfl, rfl, by simp [openIdle]⟩

theorem Settled.disposed {idle : List (ℕ × ℕ)} (h : Settled s idle) {k : ℕ} (hk : k ∈ s.accepted) :
    s.files.closed.count k + s.files.handed.count k = 1 :=
  h.custody.once (h.accepted k hk).1 (h.accepted k hk).2

theorem Settled.ownsIdle {idle : List (ℕ × ℕ)} (h : Settled s idle) : s.OwnsIdle := by
  refine ⟨h.opened, fun k => ?_⟩
  rw [h.custody.owned_iff, List.mem_map]
  constructor
  · rintro ⟨p, hp, rfl⟩
    obtain ⟨f, hf, hk⟩ := Option.map_eq_some_iff.mp (h.custody.named p hp)
    have hfd : p.1 ∈ s.idleFd_.toList := h.numbers ▸ List.mem_map_of_mem hp
    exact ⟨p.1, f, by simpa using hfd, hf, hk⟩
  · rintro ⟨fd, f, hfd, hf, rfl⟩
    have hmem : fd ∈ idle.map Prod.fst := by simp [h.numbers, hfd]
    obtain ⟨p, hp, rfl⟩ := List.mem_map.mp hmem
    have hn := h.custody.named p hp
    rw [hf, Option.map_some, Option.some_inj] at hn
    exact ⟨p, hp, hn.symm⟩

theorem Settled.handleRead {idle : List (ℕ × ℕ)} (h : Settled s idle) {e : Readable α} (he : s.Enabled (.readable e))
    (hs : s.handleRead e = .ok t) : Settled t idle := by
  obtain ⟨fd, addr, files, ha, hfiles, hcase⟩ := handleRead_inv hs
  have hfree : s.files.table fd = none := he.1 (fd, addr) (by simp [ha, Except.toOption])
  have hc : Custody files ((fd, s.files.created) :: idle) := by
    rw [hfiles]
    exact (h.custody.create hfree _).modify _ _
  have hcreated : files.created = s.files.created + 1 := by
    rw [hfiles]
    rfl
  have hacc : ∀ k ∈ s.accepted ++ [s.files.created], k < files.created ∧ k ∉ idle.map Prod.snd := by
    intro k hk
    rcases List.mem_append.mp hk with hk | hk
    · obtain ⟨hlt, hnot⟩ := h.accepted k hk
      exact ⟨by omega, hnot⟩
    · rw [List.mem_singleton] at hk
      have hnd := (List.nodup_append.mp hc.nodup).1
      rw [List.map_cons, List.nodup_cons] at hnd
      exact ⟨by omega, hk ▸ hnd.1⟩
  obtain ⟨-, rfl⟩ | ⟨-, rfl⟩ := hcase
  · exact ⟨hc.hand, h.numbers, h.opened, hacc⟩
  · refine ⟨hc.close, h.numbers, h.opened, ?_⟩
    obtain ⟨attr, hf⟩ := hc.file
    simpa [Descriptors.close, hf] using hacc

theorem Settled.step {idle : List (ℕ × ℕ)} (h : Settled s idle) {i : Step α} (he : s.Enabled i)
    (hs : s.step i = .ok t) : Settled t idle := by
  cases i with
  | readable e => exact h.handleRead he hs
  | setNewConnectionCallback cb =>
    cases hs
    exact ⟨h.custody, h.numbers, h.opened, h.accepted⟩
  | release fd =>
    cases hs
    obtain ⟨f, hf, hh⟩ := he
    exact ⟨h.custody.release hf hh, h.numbers, h.opened, h.accepted⟩

/-- In every state a run reaches, the acceptor gets over the next event exactly if its `accept(2)` does not fail with
one of the transient errors. -/
theorem transient_errors_survived_iff [Build] {result : Except Errno ℕ} {s₀ : Acceptor α}
    (h₀ : construct result = .ok s₀) {steps : List (Step α)} (h : Path step Enabled s₀ steps s) {e : Readable α}
    (he : s.Enabled (.readable e)) :
    s.Survives e ↔ ∀ err, e.accept = .error err → err.transient = false := by
  obtain ⟨idle, hinit⟩ := construct_settled h₀
  have hs : Settled s idle := h.invariant (P := fun t => Settled t idle) hinit fun _ _ _ ht hi hu => ht.step hi hu
  constructor
  · intro hsur err herr
    obtain ⟨err', herr', hfatal⟩ := hsur.aborts (handleRead_error herr)
    rw [herr, Except.error.injEq] at herr'
    rw [herr', hfatal]
  · intro hfatal
    constructor
    · intro hab
      cases ha : e.accept with
      | error err => exact ⟨err, rfl, hfatal err ha⟩
      | ok conn =>
        simp only [Acceptor.handleRead, socketsAccept_ok ha, ok_bind] at hab
        split_ifs at hab
    · intro err herr htr
      rw [hfatal err herr] at htr
      cases htr
    · intro t ht
      obtain ⟨fd, addr, files, ha, -, ⟨-, rfl⟩ | ⟨-, rfl⟩⟩ := handleRead_inv ht
      · simp [ha]
      · simp [ha]
    · exact fun t ht => ⟨(hs.handleRead he ht).custody.stray, fun k hk => (hs.handleRead he ht).disposed hk⟩
    · exact fun t ht => (hs.handleRead he ht).ownsIdle

end Runs

theorem transient_errors_survived_accepting :
    letI := Build.debug
    ∃ s₀ s : Acceptor ℕ, construct (.ok 3) = .ok s₀ ∧
      Path step Enabled s₀ [.setNewConnectionCallback true, .readable { accept := .ok (4, 80) }] s ∧
      s.passed = [(4, 80)] ∧ s.Survives { accept := .ok (5, 81) } := by
  let _ := Build.debug
  let s₀ : Acceptor ℕ := openIdle {} (.ok 3)
  let s₁ : Acceptor ℕ := { s₀ with newConnectionCallback_ := true }
  have h₀ : construct (.ok 3) = .ok s₀ := rfl
  have he : s₁.Enabled (.readable { accept := .ok (4, 80) }) := by
    simp [Enabled, s₁, s₀, openIdle, Descriptors.create, Except.toOption]
  obtain ⟨s, hs, hp, hfree⟩ : ∃ s, s₁.handleRead { accept := .ok (4, 80) } = .ok s ∧ s.passed = [(4, 80)] ∧
      s.files.table 5 = none := ⟨_, rfl, rfl, rfl⟩
  have hpath : Path step Enabled s₀ [.setNewConnectionCallback true, .readable { accept := .ok (4, 80) }] s :=
    .cons trivial rfl (.cons he hs .nil)
  refine ⟨s₀, s, h₀, hpath, hp, (transient_errors_survived_iff h₀ hpath ?_).mpr ?_⟩
  · simp [Enabled, Except.toOption, hfree]
  · intro err herr
    cases herr

-- a client that gives up its handshake while it waits in the queue
theorem aborted_handshake_aborts_process :
    letI := Build.debug
    ∃ s : Acceptor ℕ, construct (.ok 3) = .ok s ∧ s.Enabled (.readable { accept := .error .ECONNABORTED }) ∧
      s.handleRead { accept := .error .ECONNABORTED } = .error .abort ∧
      ¬ s.Survives { accept := .error .ECONNABORTED } := by
  let _ := Build.debug
  refine ⟨openIdle {} (.ok 3), rfl, ?_, rfl, ?_⟩
  · simp [Enabled, Except.toOption]
  · intro h
    obtain ⟨err, herr, hfatal⟩ := h.aborts rfl
    cases herr
    cases hfatal

end Networker.Acceptor
