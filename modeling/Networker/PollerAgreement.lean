import Networker.PollerKernel
import Networker.PollIndices

/-!
The two pollers side by side. What they have in common is a registry: which channel a
descriptor belongs to and the mask of each channel. Each poller refines it as long as no
channel is updated after its removal and no update leaves an empty mask empty.
-/

namespace Networker

open CheckedRuns

structure Registry where
  channels : ChannelMap := fun _ => none
  events : ℕ → BitVec 32 := fun _ => 0

namespace Registry

/-- The descriptors to watch are those of the registered channels with a non-empty mask. -/
def watched (R : Registry) (k : ℤ) : Option (BitVec 32) :=
  (R.channels k).bind fun ch => if R.events ch = 0 then none else some (R.events ch)

def step (fd : ℕ → ℤ) (R : Registry) : Polling.Step → Registry
  | .change ch interest =>
    ⟨R.channels.set (fd ch) (some ch), fun r => if r = ch then interest.mask (R.events ch) else R.events r⟩
  | .remove ch => { R with channels := R.channels.set (fd ch) none }
  | .wait _ => R

/-- A channel is registered under its own descriptor, and has no events while it is not registered. -/
structure Valid (fd : ℕ → ℤ) (R : Registry) : Prop where
  owner : ∀ k ch, R.channels k = some ch → fd ch = k
  idle : ∀ ch, R.channels (fd ch) ≠ some ch → R.events ch = 0

variable {fd : ℕ → ℤ} {R : Registry} {ch : ℕ}

theorem initial_valid : Valid fd {} := by
  constructor
  · intro k ch h
    cases h
  · intro ch _
    rfl

theorem Valid.free (h : Valid fd R) (hfd : Function.Injective fd) (ch : ℕ) :
    R.channels (fd ch) = none ∨ R.channels (fd ch) = some ch := by
  cases hc : R.channels (fd ch) with
  | none => exact Or.inl rfl
  | some r =>
    right
    rw [hfd (h.owner _ r hc)]

/-- The entry of one channel is replaced. -/
theorem Valid.set (h : Valid fd R) (hfd : Function.Injective fd) {entry : Option ℕ} {events : ℕ → BitVec 32}
    (howner : ∀ r, entry = some r → r = ch) (hidle : entry ≠ some ch → events ch = 0)
    (hother : ∀ r, r ≠ ch → events r = R.events r) : Valid fd ⟨R.channels.set (fd ch) entry, events⟩ := by
  constructor
  · intro k r hr
    by_cases hk : k = fd ch
    · subst hk
      rw [howner r ((ChannelMap.set_same _ _ _).symm.trans hr)]
    · exact h.owner k r ((ChannelMap.set_other _ _ _ hk).symm.trans hr)
  · intro r hr
    by_cases hrc : r = ch
    · subst hrc
      exact hidle fun heq => hr ((ChannelMap.set_same _ _ _).trans heq)
    · have hk : fd r ≠ fd ch := fun he => hrc (hfd he)
      exact (hother r hrc).trans (h.idle r fun hreg => hr ((ChannelMap.set_other _ _ _ hk).trans hreg))

theorem Valid.change (h : Valid fd R) (hfd : Function.Injective fd) (ch : ℕ) (interest : Channel.Interest) :
    Valid fd (R.step fd (.change ch interest)) := by
  apply h.set hfd
  · intro r hr
    exact (Option.some.inj hr).symm
  · intro hne
    exact absurd rfl hne
  · intro r hr
    exact if_neg hr

theorem Valid.remove (h : Valid fd R) (hfd : Function.Injective fd) (h0 : R.events ch = 0) :
    Valid fd (R.step fd (.remove ch)) := by
  apply h.set hfd
  · intro r hr
    cases hr
  · intro _
    exact h0
  · intro r _
    rfl

theorem Valid.step_other (h : Valid fd R) {i : Polling.Step} {k : ℤ}
    (hi : ∀ ch interest, i = .change ch interest ∨ i = .remove ch → k ≠ fd ch) :
    (R.step fd i).channels k = R.channels k ∧ (R.step fd i).watched k = R.watched k := by
  cases i with
  | wait answer => exact ⟨rfl, rfl⟩
  | remove ch =>
    have hk := hi ch .disableAll (Or.inr rfl)
    have hchan : (R.step fd (.remove ch)).channels k = R.channels k := ChannelMap.set_other _ _ _ hk
    refine ⟨hchan, ?_⟩
    unfold watched
    rw [hchan]
    rfl
  | change ch interest =>
    have hk := hi ch interest (Or.inl rfl)
    have hchan : (R.step fd (.change ch interest)).channels k = R.channels k := ChannelMap.set_other _ _ _ hk
    refine ⟨hchan, ?_⟩
    unfold watched
    rw [hchan]
    cases hr : R.channels k with
    | none => rfl
    | some r =>
      have hrc : r ≠ ch := by
        rintro rfl
        exact hk (h.owner k r hr).symm
      simp only [Option.bind_some, step, if_neg hrc]

end Registry

namespace Polling

open PollPoller EPollPoller

/-- An `epoll` registration, or an entry of `pollfds_` with a non-negative descriptor. -/
def watched (s : Polling) (k : ℤ) : Option (BitVec 32) :=
  match s.poller with
  | .poll p => (p.pollfds.find? fun pfd => decide (0 ≤ pfd.fd ∧ pfd.fd = k)).map fun pfd => pfd.events.signExtend 32
  | .epoll p => (p.interest k).map Prod.snd

/-- The heap has the descriptors and masks of the registry. -/
def Holds (fd : ℕ → ℤ) (R : Registry) (heap : ChannelHeap) : Prop :=
  ∀ ch, (heap ch).fd = fd ch ∧ (heap ch).events = R.events ch

structure PollRefines (fd : ℕ → ℤ) (R : Registry) (p : PollPoller) (heap : ChannelHeap) : Prop where
  dense : Dense True p heap
  channels : p.channels = R.channels
  holds : Holds fd R heap

structure EPollRefines (fd : ℕ → ℤ) (R : Registry) (p : EPollPoller) (heap : ChannelHeap) : Prop where
  mirrors : p.Mirrors heap
  channels : p.channels = R.channels
  holds : Holds fd R heap
  added : ∀ ch, (heap ch).index = kAdded ↔ R.events ch ≠ 0

section Watched

variable {fd : ℕ → ℤ} {R : Registry} {heap : ChannelHeap}

theorem ignoredIfNone_nonneg {c : Channel} (h0 : 0 ≤ c.fd) (h : 0 ≤ ignoredIfNone c) :
    ignoredIfNone c = c.fd ∧ c.events ≠ 0 := by
  unfold ignoredIfNone at h ⊢
  split_ifs at h ⊢ with hn
  · omega
  · refine ⟨rfl, ?_⟩
    simpa [Channel.isNoneEvent, Channel.kNoneEvent] using hn

theorem ignoredIfNone_of_events {c : Channel} (h : c.events ≠ 0) : ignoredIfNone c = c.fd := by
  apply if_neg
  simpa [Channel.isNoneEvent, Channel.kNoneEvent] using h

-- what the index was says whether the mask was empty
theorem updatedIndex_added {c : Channel} {old : BitVec 32}
    (hs : c.index = kNew ∨ c.index = kAdded ∨ c.index = kDeleted) (hold : c.index = kAdded ↔ old ≠ 0)
    (he : c.events = 0 → old ≠ 0) : updatedIndex c = kAdded ↔ c.events ≠ 0 := by
  unfold updatedIndex
  by_cases hzero : old = 0
  · have hnot : c.index ≠ kAdded := fun ha => hold.mp ha hzero
    have hidx : c.index = kNew ∨ c.index = kDeleted := by tauto
    rw [if_pos hidx]
    exact ⟨fun _ hc => he hc hzero, fun _ => rfl⟩
  · have hidx : ¬(c.index = kNew ∨ c.index = kDeleted) := by
      rw [hold.mpr hzero]
      decide
    rw [if_neg hidx]
    by_cases hn : c.events = 0
    · have hnone : c.isNoneEvent = true := by simp [Channel.isNoneEvent, Channel.kNoneEvent, hn]
      rw [if_pos hnone]
      exact ⟨fun hc => absurd hc (by decide), fun hc => absurd hn hc⟩
    · have hnone : ¬c.isNoneEvent = true := by simpa [Channel.isNoneEvent, Channel.kNoneEvent] using hn
      rw [if_neg hnone]
      exact ⟨fun _ => hn, fun _ => rfl⟩

theorem PollRefines.watched {p : PollPoller} (h : PollRefines fd R p heap) (k : ℤ) :
    watched ⟨heap, .poll p⟩ k = R.watched k := by
  have hchan : R.watched k = (p.channels k).bind fun ch =>
      if (heap ch).events = 0 then none else some (heap ch).events := by
    unfold Registry.watched
    rw [h.channels]
    congr 1
    funext ch
    rw [(h.holds ch).2]
  rw [hchan]
  unfold Polling.watched
  dsimp only
  cases hf : p.pollfds.find? fun pfd => decide (0 ≤ pfd.fd ∧ pfd.fd = k) with
  | some pfd =>
    -- the entry belongs to a channel, which is the one registered for `k`
    obtain ⟨h0, hk⟩ : 0 ≤ pfd.fd ∧ pfd.fd = k := by simpa using List.find?_some hf
    obtain ⟨i, hi⟩ := List.mem_iff_getElem?.mp (List.mem_of_find?_eq_some hf)
    obtain ⟨k', ch, hch, hidx⟩ := h.dense.onto i (List.getElem?_eq_some_iff.mp hi).1
    obtain ⟨j, pfd', hj, hp, he⟩ := h.dense.entry k' ch hch
    have hij : j = i := by omega
    subst hij
    cases hi.symm.trans hp
    have hign := he.ignored trivial
    obtain ⟨hfd, hne⟩ := ignoredIfNone_nonneg (h.dense.nonneg ch) (by omega)
    have hkk : k' = k := by
      rw [← h.dense.owner k' ch hch]
      omega
    rw [← hkk, hch]
    simp only [Option.map_some, Option.bind_some, if_neg hne, he.events]
  | none =>
    rw [Option.map_none]
    cases hch : p.channels k with
    | none => rfl
    | some ch =>
      by_cases hne : (heap ch).events = 0
      · simp [hne]
      · exfalso
        obtain ⟨i, pfd, -, hp, he⟩ := h.dense.entry k ch hch
        have hfd : pfd.fd = k := by
          rw [he.ignored trivial, ignoredIfNone_of_events hne, h.dense.owner k ch hch]
        have h0 := h.dense.nonneg ch
        rw [h.dense.owner k ch hch] at h0
        have hno := List.find?_eq_none.mp hf pfd (List.mem_of_getElem? hp)
        exact hno (by simp [hfd, h0])

theorem EPollRefines.watched {p : EPollPoller} (h : EPollRefines fd R p heap) (k : ℤ) :
    watched ⟨heap, .epoll p⟩ k = R.watched k := by
  unfold Polling.watched Registry.watched
  dsimp only
  rw [h.mirrors.watched, h.channels]
  cases hch : R.channels k with
  | none => rfl
  | some ch =>
    simp only [Option.bind_some]
    by_cases h0 : R.events ch = 0
    · rw [if_neg (fun ha => (h.added ch).mp ha h0), if_pos h0]
      rfl
    · rw [if_pos ((h.added ch).mpr h0), if_neg h0, (h.holds ch).2]
      rfl

end Watched

abbrev Pair := Polling × Polling

def bothStep [Build] (x : Pair) (i : Step) : Exec Pair := do
  let s ← x.1.step i
  let t ← x.2.step i
  .ok (s, t)

/-- Any change of a mask; `remove()` is called on a registered channel without events. -/
def Operates (x : Pair) : Step → Prop
  | .change _ _ => True
  | .remove ch => x.1.Registered ch ∧ (x.1.heap ch).isNoneEvent = true
  | .wait _ => False

instance (x : Pair) : (i : Step) → Decidable (Operates x i)
  | .change _ _ => inferInstanceAs (Decidable True)
  | .remove _ => inferInstanceAs (Decidable (_ = _ ∧ _ = _))
  | .wait _ => inferInstanceAs (Decidable False)

/-- No update leaves an empty mask empty. -/
def Effective (x : Pair) : Step → Prop
  | .change ch interest => interest.mask (x.1.heap ch).events = 0 → (x.1.heap ch).events ≠ 0
  | .remove _ | .wait _ => True

instance (x : Pair) : (i : Step) → Decidable (Effective x i)
  | .change _ _ => inferInstanceAs (Decidable (_ = _ → _ ≠ _))
  | .remove _ | .wait _ => inferInstanceAs (Decidable True)

structure Agree (fd : ℕ → ℤ) (x : Pair) : Prop where
  channels : x.1.channels = x.2.channels
  watched : ∀ k, x.1.watched k = x.2.watched k
  -- the watched descriptors are those of the registered channels with a non-empty mask
  exact : ∀ k mask, x.1.watched k = some mask ↔
    ∃ ch, x.1.Registered ch ∧ fd ch = k ∧ mask = (x.1.heap ch).events ∧ mask ≠ 0

/-- The entries of descriptor `k` are the same in both pollers before and after. -/
def Untouched (x y : Pair) (k : ℤ) : Prop :=
  y.1.channels k = x.1.channels k ∧ y.1.watched k = x.1.watched k ∧
    y.2.channels k = x.2.channels k ∧ y.2.watched k = x.2.watched k

section Steps

variable {fd : ℕ → ℤ} {R : Registry} {heap : ChannelHeap} {ch : ℕ}

theorem Holds.change (h : Holds fd R heap) {c : Channel} {interest : Channel.Interest} (hfd : c.fd = (heap ch).fd)
    (he : c.events = interest.mask (heap ch).events) :
    Holds fd (R.step fd (.change ch interest)) (heap.set ch c) := by
  intro r
  by_cases hr : r = ch
  · subst hr
    rw [ChannelHeap.set_same, hfd, he, (h r).1, (h r).2]
    exact ⟨rfl, (if_pos rfl).symm⟩
  · rw [ChannelHeap.set_other _ _ _ hr, (h r).1, (h r).2]
    exact ⟨rfl, (if_neg hr).symm⟩

theorem Holds.remove (h : Holds fd R heap) {heap' : ChannelHeap}
    (hf : ∀ r, (heap' r).fd = (heap r).fd ∧ (heap' r).events = (heap r).events) :
    Holds fd (R.step fd (.remove ch)) heap' := by
  intro r
  rw [(hf r).1, (hf r).2]
  exact h r

variable [Build]

theorem PollRefines.change {p : PollPoller} {steps : List Step} (h : PollRefines fd R p heap) (hk : Kept steps p heap)
    (hv : R.Valid fd) (hfd : Function.Injective fd) {interest : Channel.Interest} (hno : .remove ch ∉ steps)
    (he : interest.mask (R.events ch) = 0 → R.events ch ≠ 0) :
    ∃ q heap', step ⟨heap, .poll p⟩ (.change ch interest) = .ok ⟨heap', .poll q⟩ ∧
      PollRefines fd (R.step fd (.change ch interest)) q heap' ∧ Kept (steps ++ [.change ch interest]) q heap' := by
  have hfree : p.channels (heap ch).fd = none ∨ p.channels (heap ch).fd = some ch := by
    rw [h.channels, (h.holds ch).1]
    exact hv.free hfd ch
  have hs : True → p.channels (heap ch).fd = none → interest.mask (heap ch).events ≠ 0 := by
    intro _ hnone hzero
    rw [h.channels, (h.holds ch).1] at hnone
    rw [(h.holds ch).2] at hzero
    exact he hzero (hv.idle ch (by simp [hnone]))
  obtain ⟨q, c, hq, hd, hchan, hcfd, hce⟩ := poll_change h.dense _ (hk.slot hfree hno) hs
  refine ⟨q, _, hq, ⟨hd, ?_, h.holds.change hcfd hce⟩, hk.change hfree hchan hcfd _⟩
  rw [hchan, h.channels, (h.holds ch).1]
  rfl

theorem PollRefines.remove {p : PollPoller} {steps : List Step} (h : PollRefines fd R p heap) (hk : Kept steps p heap)
    (hreg : R.channels (fd ch) = some ch) (h0 : R.events ch = 0) :
    ∃ q heap', step ⟨heap, .poll p⟩ (.remove ch) = .ok ⟨heap', .poll q⟩ ∧
      PollRefines fd (R.step fd (.remove ch)) q heap' ∧ Kept (steps ++ [.remove ch]) q heap' := by
  rw [← h.channels, ← (h.holds ch).1] at hreg
  have hnone : (heap ch).isNoneEvent = true := by simp [Channel.isNoneEvent, Channel.kNoneEvent, (h.holds ch).2, h0]
  obtain ⟨q, heap', pfd, he, hq, hd, hchan, hf, hidx⟩ := poll_remove h.dense hreg
  have hentry : pfd.fd = -(heap ch).fd - 1 ∧ pfd.events.signExtend 32 = (heap ch).events := by
    refine ⟨?_, he.events⟩
    rw [he.ignored trivial]
    exact if_pos hnone
  rw [assert_pos hnone, ok_bind, ok_bind, assert_pos hentry, ok_bind] at hq
  refine ⟨q, heap', hq, ⟨hd, ?_, h.holds.remove hf⟩, hk.remove hreg hchan (fun r => (hf r).1) hidx⟩
  rw [hchan, h.channels, (h.holds ch).1]
  rfl

theorem EPollRefines.change {p : EPollPoller} (h : EPollRefines fd R p heap) (hv : R.Valid fd)
    (hfd : Function.Injective fd) {interest : Channel.Interest}
    (he : interest.mask (R.events ch) = 0 → R.events ch ≠ 0) :
    ∃ q heap', step ⟨heap, .epoll p⟩ (.change ch interest) = .ok ⟨heap', .epoll q⟩ ∧
      EPollRefines fd (R.step fd (.change ch interest)) q heap' := by
  have hfree : p.channels (heap ch).fd = none ∨ p.channels (heap ch).fd = some ch := by
    rw [h.channels, (h.holds ch).1]
    exact hv.free hfd ch
  obtain ⟨q, c, hq, hm, -, hchan, hcfd, hce, hci⟩ := epoll_change h.mirrors interest hfree
  have hholds := h.holds.change hcfd hce
  refine ⟨q, _, hq, hm, ?_, hholds, ?_⟩
  · rw [hchan, h.channels, (h.holds ch).1]
    rfl
  · intro r
    by_cases hr : r = ch
    · rw [hr, ← (hholds ch).2, ChannelHeap.set_same, hci]
      rw [(h.holds ch).2] at hce
      rw [← hce] at he
      exact updatedIndex_added (h.mirrors.status ch) (h.added ch) he
    · rw [ChannelHeap.set_other _ _ _ hr, ← (hholds r).2, ChannelHeap.set_other _ _ _ hr, (h.holds r).2]
      exact h.added r

theorem EPollRefines.remove {p : EPollPoller} (h : EPollRefines fd R p heap) (hreg : R.channels (fd ch) = some ch)
    (h0 : R.events ch = 0) :
    ∃ q heap', step ⟨heap, .epoll p⟩ (.remove ch) = .ok ⟨heap', .epoll q⟩ ∧
      EPollRefines fd (R.step fd (.remove ch)) q heap' := by
  have hen : Enabled ⟨heap, .epoll p⟩ (.remove ch) := by
    refine ⟨?_, ?_⟩
    · change p.channels (heap ch).fd = some ch
      rw [h.channels, (h.holds ch).1, hreg]
    · simp [Channel.isNoneEvent, Channel.kNoneEvent, (h.holds ch).2, h0]
  obtain ⟨q, c, hq, hm, -, hchan, hcfd, hce, hci⟩ := epoll_remove h.mirrors hen
  refine ⟨q, _, hq, hm, ?_, h.holds.remove ?_, ?_⟩
  · rw [hchan, h.channels, (h.holds ch).1]
    rfl
  · intro r
    by_cases hr : r = ch
    · rw [hr, ChannelHeap.set_same]
      exact ⟨hcfd, hce⟩
    · rw [ChannelHeap.set_other _ _ _ hr]
      exact ⟨rfl, rfl⟩
  · intro r
    by_cases hr : r = ch
    · rw [hr, ChannelHeap.set_same, hci]
      simp [Registry.step, h0, kNew, kAdded]
    · rw [ChannelHeap.set_other _ _ _ hr]
      exact h.added r

end Steps

/-- Both pollers refine one registry. -/
structure Together (fd : ℕ → ℤ) (steps : List Step) (R : Registry) (x : Pair) : Prop where
  valid : R.Valid fd
  poll : ∃ p heap, x.1 = ⟨heap, .poll p⟩ ∧ PollRefines fd R p heap ∧ Kept steps p heap
  epoll : ∃ p heap, x.2 = ⟨heap, .epoll p⟩ ∧ EPollRefines fd R p heap

section Pairs

variable {fd : ℕ → ℤ} {R : Registry} {steps : List Step} {x : Pair}

theorem Together.channels (h : Together fd steps R x) : x.1.channels = R.channels ∧ x.2.channels = R.channels := by
  obtain ⟨p, heap, hp, hr, -⟩ := h.poll
  obtain ⟨q, heap', hq, hr'⟩ := h.epoll
  rw [hp, hq]
  exact ⟨hr.channels, hr'.channels⟩

theorem Together.watched (h : Together fd steps R x) (k : ℤ) :
    x.1.watched k = R.watched k ∧ x.2.watched k = R.watched k := by
  obtain ⟨p, heap, hp, hr, -⟩ := h.poll
  obtain ⟨q, heap', hq, hr'⟩ := h.epoll
  rw [hp, hq]
  exact ⟨hr.watched k, hr'.watched k⟩

theorem Together.holds (h : Together fd steps R x) : Holds fd R x.1.heap := by
  obtain ⟨p, heap, hp, hr, -⟩ := h.poll
  rw [hp]
  exact hr.holds

theorem Together.registered_iff (h : Together fd steps R x) (ch : ℕ) :
    x.1.Registered ch ↔ R.channels (fd ch) = some ch := by
  rw [Registered, h.channels.1, (h.holds ch).1]

variable [Build]

theorem Together.step (h : Together fd steps R x) (hfd : Function.Injective fd) {i : Step} (hi : Operates x i)
    (he : Effective x i) (hno : ∀ ch interest, i = .change ch interest → .remove ch ∉ steps) :
    ∃ y, bothStep x i = .ok y ∧ Together fd (steps ++ [i]) (R.step fd i) y := by
  have hholds := h.holds
  have hregistered := h.registered_iff
  obtain ⟨p, heap, hp, hr, hk⟩ := h.poll
  obtain ⟨q, heap', hq, hr'⟩ := h.epoll
  cases i with
  | wait answer => exact hi.elim
  | change ch interest =>
    have he' : interest.mask (R.events ch) = 0 → R.events ch ≠ 0 := by
      rw [← (hholds ch).2]
      exact he
    obtain ⟨p', heap₁, hp', hr₁, hk₁⟩ := hr.change hk h.valid hfd (hno ch interest rfl) he'
    obtain ⟨q', heap₂, hq', hr₂⟩ := hr'.change h.valid hfd he'
    refine ⟨_, by rw [bothStep, hp, hq, hp', ok_bind, hq', ok_bind], h.valid.change hfd ch interest, ?_, ?_⟩
    · exact ⟨p', heap₁, rfl, hr₁, hk₁⟩
    · exact ⟨q', heap₂, rfl, hr₂⟩
  | remove ch =>
    have hreg := (hregistered ch).mp hi.1
    have hzero : R.events ch = 0 := by
      rw [← (hholds ch).2]
      simpa [Channel.isNoneEvent, Channel.kNoneEvent] using hi.2
    obtain ⟨p', heap₁, hp', hr₁, hk₁⟩ := hr.remove hk hreg hzero
    obtain ⟨q', heap₂, hq', hr₂⟩ := hr'.remove hreg hzero
    refine ⟨_, by rw [bothStep, hp, hq, hp', ok_bind, hq', ok_bind], h.valid.remove hfd hzero, ?_, ?_⟩
    · exact ⟨p', heap₁, rfl, hr₁, hk₁⟩
    · exact ⟨q', heap₂, rfl, hr₂⟩

end Pairs

end Polling

end Networker
