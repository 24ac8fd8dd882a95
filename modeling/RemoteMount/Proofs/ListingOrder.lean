import RemoteMount.Proofs.NamespaceCoherence
import RemoteMount.Proofs.Staleness

namespace RemoteMount

open Program

def Call.lists {π : Type} : Call π → Bool
  | getattr _ | readdir _ | createNew _ => true
  | mkdir _ | rmdir _ | unlink _ | create _ | read .. | write .. | rename .. | truncate ..
  | destroy => false

namespace ListingOrder

/-- A generation of the cache, and a moment at which it was the current one. -/
structure Reading where
  generation : Nat
  time : Nat
deriving DecidableEq

/-- A listing as the device gave it, and what its call had learnt of the cache before. -/
structure Snapshot where
  begun : Reading
  dir : RemotePath
  rows : List ListingEntry
  taken : Nat
deriving DecidableEq

/-- What a call has learnt of the cache and of the device last. -/
structure Flight where
  begun? : Option Reading
  taken? : Option Snapshot

def Flight.after (time : Nat) (f : Flight) : (s : Step) → s.Answer → Flight
  | .cache .generation, generation => { f with begun? := some ⟨generation, time⟩ }
  | .remote (.listdir dir), .ok rows =>
    { f with taken? := f.begun?.map fun r ↦ ⟨r, dir, rows, time⟩ }
  | _, _ => f

/-- A listing that a call has offered to the cache, and whether the cache stored it. -/
structure Offer extends Snapshot where
  caller : Caller
  time : Nat
  stored : Bool
deriving DecidableEq

/-- Two listings were in flight at once: each was begun before the other was offered. -/
def Offer.Overlaps (o o' : Offer) : Prop := o.begun.time < o'.time ∧ o'.begun.time < o.time

structure Offer.Gives (policy : Policy) (o : Offer) (dir : RemotePath)
    (listing : KeyMap String Attributes) : Prop where
  ofDirectory : o.dir = dir
  stored : o.stored = true
  listing : listing = .ofList (Filesystem.recordsOf policy o.caller dir o.rows)

structure BegunCall where
  caller : Caller
  rest : Program (Except CallError CallAnswer)
  flight : Flight

/-- Calls that list directories, interleaved step by step. Between any two steps the device may
come to be in any other state. -/
structure State (σ : Type) where
  shared : CachedDevice σ
  calls : List BegunCall
  time : Nat
  offers : List Offer

inductive Choice (σ : Type)
  | start (caller : Caller) (call : Call RemotePath)
  | advance (i : Nat)
  | change (f : σ → σ)

def offersOf (c : BegunCall) (time : Nat) : (s : Step) → s.Answer → List Offer
  | .cache (.populateIfCurrent ..), stored =>
    c.flight.taken?.toList.map fun l ↦ ⟨l, c.caller, time, stored⟩
  | _, _ => []

section Steps

variable {σ : Type} [RemoteDevice σ]

def State.take (s : State σ) (i : Nat) (c : BegunCall) (a : Step)
    (k : a.Answer → Program (Except CallError CallAnswer)) : State σ where
  shared := (a.run s.shared).2
  calls := s.calls.set i ⟨c.caller, k (a.run s.shared).1,
    c.flight.after s.time a (a.run s.shared).1⟩
  time := s.time + 1
  offers := offersOf c s.time a (a.run s.shared).1 ++ s.offers

def next (policy : Policy) (s : State σ) : Choice σ → State σ
  | .start caller call =>
    { s with calls := s.calls ++ [⟨caller, call.program policy caller, ⟨none, none⟩⟩] }
  | .advance i =>
    match s.calls[i]? with
    | none => s
    | some c =>
      match c.rest with
      | .done _ => s
      | .step a k => s.take i c a k
  | .change f => { s with shared := { s.shared with device := f s.shared.device } }

def run (policy : Policy) (device : σ) (schedule : List (Choice σ)) : State σ :=
  schedule.foldl (next policy) ⟨⟨device, .empty⟩, [], 0, []⟩

end Steps

section Offering

variable {α β : Type} (policy : Policy) (caller : Caller)

def Offered (f : Flight) : Step → Prop
  | .cache (.populateIfCurrent dir generation records) => ∃ l, f.taken? = some l ∧ l.dir = dir ∧
      l.begun.generation = generation ∧ records = Filesystem.recordsOf policy caller dir l.rows
  | .cache (.populate ..) | .cache (.updateSize ..) => False
  | _ => True

def Offers : Program α → Flight → Prop
  | .done _, _ => True
  | .step s next, f => Offered policy caller f s ∧ ∀ time x, Offers (next x) (f.after time s x)

variable {policy caller} {p : Program α} {q : α → Program β} {f : Flight} {dir path : RemotePath}

theorem Offers.bind (hp : Offers policy caller p f) (hq : ∀ a f', Offers policy caller (q a) f') :
    Offers policy caller (p >>= q) f := by
  induction p generalizing f with
  | done a => exact hq a f
  | step s next ih => exact ⟨hp.1, fun time x ↦ ih x (hp.2 time x)⟩

theorem Offers.map {g : α → β} (h : Offers policy caller p f) :
    Offers policy caller (g <$> p) f := by
  rw [map_eq_pure_bind]
  exact h.bind fun _ _ ↦ trivial

theorem offers_refresh : Offers policy caller (Filesystem.refresh policy caller dir) f := by
  refine ⟨trivial, fun time generation ↦ ⟨trivial, ?_⟩⟩
  rintro time' (e | rows)
  · trivial
  · exact ⟨⟨_, rfl, rfl, rfl, rfl⟩, fun _ _ ↦ trivial⟩

theorem offers_getattr : Offers policy caller (Filesystem.getattr policy caller path) f := by
  unfold Filesystem.getattr
  split
  · trivial
  · refine ⟨trivial, ?_⟩
    rintro time (_ | a)
    · refine offers_refresh.bind fun listed f' ↦ ?_
      rcases listed with e | records
      · trivial
      · dsimp only
        split <;> trivial
    · trivial

theorem offers_readdir : Offers policy caller (Filesystem.readdir policy caller path) f := by
  refine offers_refresh.bind fun listed f' ↦ ?_
  cases listed <;> trivial

theorem offers_create : Offers policy caller (Filesystem.create path) f := by
  refine ⟨trivial, fun _ _ ↦ ⟨trivial, ?_⟩⟩
  rintro time (e | id)
  · exact ⟨trivial, fun _ _ ↦ trivial⟩
  · refine ⟨trivial, ?_⟩
    rintro time' (e | u) <;> exact ⟨trivial, fun _ _ ↦ trivial⟩

theorem offers_createNew : Offers policy caller (Filesystem.createNew policy caller path) f := by
  refine offers_refresh.bind fun listed f' ↦ ?_
  rcases listed with e | records
  · trivial
  · dsimp only
    split
    · trivial
    · exact offers_create

theorem offers_program {call : Call RemotePath} (h : call.lists = true) :
    Offers policy caller (call.program policy caller) f := by
  cases call with
  | getattr path => exact offers_getattr.map
  | readdir path => exact offers_readdir.map
  | createNew path => exact offers_createNew.map
  | _ => cases h

end Offering

end ListingOrder

namespace ListingOrder

variable {σ : Type} {policy : Policy} {s : State σ} {known : Reading → Prop} {i : Nat}
    {c : BegunCall} {a : Step}
variable {k : a.Answer → Program (Except CallError CallAnswer)} {f : Flight} {time : Nat}

/-- What a call has learnt is true, and was learnt before the given moment. -/
structure Flight.Known (known : Reading → Prop) (time : Nat) (f : Flight) : Prop where
  begun : ∀ r, f.begun? = some r → known r
  taken : ∀ l, f.taken? = some l → known l.begun ∧ l.begun.time < l.taken ∧ l.taken < time

/-- The readings that are known are of generations that the cache has had, later ones of later
generations, and all that the calls in flight have learnt is among them. -/
structure Timely (policy : Policy) (s : State σ) (known : Reading → Prop) : Prop where
  past : ∀ r, known r → r.generation ≤ s.shared.cache.generation ∧ r.time < s.time
  ordered : ∀ r r', known r → known r' → r.generation < r'.generation → r.time < r'.time
  calls : ∀ c ∈ s.calls, Offers policy c.caller c.rest c.flight ∧ c.flight.Known known s.time

/-- The cache holds of a directory the listing that was stored last. Offers that were refused
are still stale. -/
structure Accounted (policy : Policy) (s : State σ) (known : Reading → Prop) : Prop where
  offers : ∀ o ∈ s.offers, known o.begun ∧ o.begun.time < o.taken ∧ o.taken < o.time ∧
    o.time < s.time
  single : ∀ o ∈ s.offers, ∀ o' ∈ s.offers, o.time = o'.time → o = o'
  refused : ∀ o ∈ s.offers, o.stored = false →
    s.shared.cache.staleSince o.dir o.begun.generation = true
  held : ∀ dir listing, s.shared.cache.listings.get? dir = some listing →
    ∃ o ∈ s.offers, o.Gives policy dir listing ∧
    s.shared.cache.staleSince dir o.begun.generation = false ∧
    ∀ o' ∈ s.offers, o'.dir = dir → o'.stored = true → o'.time ≤ o.time

theorem timely_initial (policy : Policy) (device : σ) :
    Timely policy (⟨⟨device, .empty⟩, [], 0, []⟩ : State σ) fun _ ↦ False where
  past _ h := h.elim
  ordered _ _ h := h.elim
  calls _ h := nomatch h

theorem accounted_initial (policy : Policy) (device : σ) :
    Accounted policy (⟨⟨device, .empty⟩, [], 0, []⟩ : State σ) fun _ ↦ False where
  offers _ h := nomatch h
  single _ h := nomatch h
  refused _ h := nomatch h
  held _ _ h := nomatch h

def State.also (s : State σ) (known : Reading → Prop) (r : Reading) : Prop :=
  known r ∨ r = ⟨s.shared.cache.generation, s.time⟩

theorem Flight.Known.later (h : f.Known known s.time) : f.Known (s.also known) (s.time + 1) := by
  refine ⟨fun r hr ↦ .inl (h.begun r hr), fun l hl ↦ ?_⟩
  obtain ⟨hk, hb, ht⟩ := h.taken l hl
  exact ⟨.inl hk, hb, ht.trans (Nat.lt_succ_self _)⟩

variable [RemoteDevice σ]

theorem known_after (h : Timely policy s known) (hf : f.Known known s.time) (a : Step) :
    (f.after s.time a (a.run s.shared).1).Known (s.also known) (s.time + 1) := by
  unfold Flight.after
  split
  · refine ⟨fun r hr ↦ ?_, hf.later.taken⟩
    cases hr
    exact .inr rfl
  · refine ⟨hf.later.begun, fun l hl ↦ ?_⟩
    obtain ⟨r, hr, rfl⟩ := Option.map_eq_some_iff.1 hl
    exact ⟨.inl (hf.begun r hr), (h.past r (hf.begun r hr)).2, Nat.lt_succ_self _⟩
  · exact hf.later

theorem generation_le_run (a : Step) (m : CachedDevice σ) :
    m.cache.generation ≤ (a.run m).2.cache.generation := by
  cases a with
  | remote r => exact Nat.le_refl _
  | size id => exact Nat.le_refl _
  | cache a => exact CacheAccess.generation_le m.cache a

theorem timely_take (h : Timely policy s known) (hc : s.calls[i]? = some c)
    (hk : c.rest = .step a k) :
    Timely policy (s.take i c a k) (s.also known) := by
  have hgeneration := generation_le_run a s.shared
  refine ⟨?_, ?_, fun c' hc' ↦ ?_⟩
  · rintro r (hr | rfl)
    · exact ⟨(h.past r hr).1.trans hgeneration, (h.past r hr).2.trans (Nat.lt_succ_self _)⟩
    · exact ⟨hgeneration, Nat.lt_succ_self _⟩
  · rintro r r' (hr | rfl) (hr' | rfl) hlt
    · exact h.ordered r r' hr hr' hlt
    · exact (h.past r hr).2
    · exact absurd (h.past r' hr').1 (Nat.not_le_of_lt hlt)
    · exact absurd hlt (Nat.lt_irrefl _)
  · obtain ⟨hoffers, hknown⟩ := h.calls c (List.mem_of_getElem? hc)
    rw [hk] at hoffers
    rcases List.mem_or_eq_of_mem_set hc' with hold | rfl
    · exact ⟨(h.calls c' hold).1, (h.calls c' hold).2.later⟩
    · exact ⟨hoffers.2 s.time _, known_after h hknown a⟩

theorem offered_cases (h : Offered policy c.caller c.flight a) :
    (∃ l, c.flight.taken? = some l ∧ a = .cache (.populateIfCurrent l.dir l.begun.generation
      (Filesystem.recordsOf policy c.caller l.dir l.rows))) ∨
    (∀ x, offersOf c s.time a x = []) ∧ ∀ dir listing,
      (a.run s.shared).2.cache.listings.get? dir = some listing →
      ¬a.Drops dir ∧ s.shared.cache.listings.get? dir = some listing := by
  cases a with
  | remote r => exact .inr ⟨fun _ ↦ rfl, fun _ _ hl ↦ ⟨id, hl⟩⟩
  | size id => exact .inr ⟨fun _ ↦ rfl, fun _ _ hl ↦ ⟨fun hd ↦ hd, hl⟩⟩
  | cache a =>
    have hcases {dir : RemotePath} {listing : KeyMap String Attributes}
        (hl : (a.run s.shared.cache).2.listings.get? dir = some listing) :=
          CacheAccess.listings_run_cases hl
    cases a with
    | populate | updateSize => exact h.elim
    | populateIfCurrent dir g records =>
      obtain ⟨l, hl, rfl, rfl, rfl⟩ := h
      exact .inl ⟨l, hl, rfl⟩
    | _ =>
      refine .inr ⟨fun _ ↦ rfl, fun dir listing hl ↦ ?_⟩
      rcases hcases hl with hkept | ⟨records, h | ⟨g, h, -⟩, -⟩ | ⟨path, size, h⟩
      · exact hkept
      all_goals cases h

theorem stale_take {dir : RemotePath} {g : Nat} (h : s.shared.cache.staleSince dir g = true)
    (hg : g ≤ s.shared.cache.generation)
    (a : Step) : (a.run s.shared).2.cache.staleSince dir g = true := by
  cases a with
  | remote r => exact h
  | size id => exact h
  | cache a => exact CacheAccess.staleSince_run h hg

theorem fresh_take {dir : RemotePath} {g : Nat} (h : s.shared.cache.staleSince dir g = false)
    (hd : ¬a.Drops dir) :
    (a.run s.shared).2.cache.staleSince dir g = false := by
  cases a with
  | remote r => exact h
  | size id => exact h
  | cache a =>
    refine Bool.eq_false_iff.2 fun hs ↦ ?_
    rcases CacheAccess.drops_of_staleSince hs with hs | hd'
    · rw [h] at hs
      cases hs
    · exact hd hd'

theorem accounted_quiet (ht : Timely policy s known) (h : Accounted policy s known)
    (ho : ∀ x, offersOf c s.time a x = [])
    (hl : ∀ dir listing, (a.run s.shared).2.cache.listings.get? dir = some listing →
      ¬a.Drops dir ∧ s.shared.cache.listings.get? dir = some listing) :
    Accounted policy (s.take i c a k) (s.also known) := by
  have hoffers : (s.take i c a k).offers = s.offers := by
    rw [State.take, ho]
    rfl
  refine ⟨?_, ?_, ?_, ?_⟩
  · rw [hoffers]
    intro o hm
    obtain ⟨hb, hbt, hto, hos⟩ := h.offers o hm
    exact ⟨.inl hb, hbt, hto, hos.trans (Nat.lt_succ_self _)⟩
  · rw [hoffers]
    exact h.single
  · rw [hoffers]
    exact fun o hm hs ↦ stale_take (h.refused o hm hs) (ht.past _ (h.offers o hm).1).1 a
  · rw [hoffers]
    intro dir listing hg
    obtain ⟨hd, hg⟩ := hl dir listing hg
    obtain ⟨o, hm, hgives, hfresh, hlast⟩ := h.held dir listing hg
    exact ⟨o, hm, hgives, fresh_take hfresh hd, hlast⟩

/-- What the cache does with an offer: it stores the listing unless the directory was dropped
since it was begun. -/
inductive Taken (policy : Policy) (o : Offer) (cache : AttributeCache) : AttributeCache → Prop
  | refused (ho : o.stored = false) (hs : cache.staleSince o.dir o.begun.generation = true) :
      Taken policy o cache cache
  | stored (ho : o.stored = true) (hs : cache.staleSince o.dir o.begun.generation = false) :
    Taken policy o cache (cache.populate o.dir (Filesystem.recordsOf policy o.caller o.dir o.rows))

omit [RemoteDevice σ] in
/-- A listing that is stored takes the place of the one that was held, whichever was taken
first. -/
theorem accounted_push {s' : State σ} {o : Offer} (h : Accounted policy s known)
    (ho : known o.begun ∧ o.begun.time < o.taken ∧ o.taken < o.time ∧ o.time = s.time)
    (htime : s'.time = s.time + 1) (hoffers : s'.offers = o :: s.offers)
    (hcache : Taken policy o s.shared.cache s'.shared.cache) :
    Accounted policy s' (s.also known) := by
  obtain ⟨hk, hbt, hto, hos⟩ := ho
  have hearlier : ∀ o' ∈ s.offers, o'.time < o.time := fun o' hm ↦ hos ▸ (h.offers o' hm).2.2.2
  have hstale : ∀ dir g, s'.shared.cache.staleSince dir g = s.shared.cache.staleSince dir g := by
    intro dir g
    generalize s'.shared.cache = cache at hcache
    cases hcache <;> rfl
  refine ⟨?_, ?_, ?_, ?_⟩
  · rw [hoffers, htime]
    intro o' hm
    rcases List.mem_cons.1 hm with rfl | hm
    · exact ⟨.inl hk, hbt, hto, hos ▸ Nat.lt_succ_self _⟩
    · obtain ⟨hk', hbt', hto', hos'⟩ := h.offers o' hm
      exact ⟨.inl hk', hbt', hto', hos'.trans (Nat.lt_succ_self _)⟩
  · rw [hoffers]
    intro o₁ h₁ o₂ h₂ he
    rcases List.mem_cons.1 h₁ with rfl | hm₁
    · rcases List.mem_cons.1 h₂ with rfl | hm₂
      · rfl
      · exact absurd he (hearlier o₂ hm₂).ne'
    · rcases List.mem_cons.1 h₂ with rfl | hm₂
      · exact absurd he (hearlier o₁ hm₁).ne
      · exact h.single o₁ hm₁ o₂ hm₂ he
  · rw [hoffers]
    intro o' hm hs
    rw [hstale]
    rcases List.mem_cons.1 hm with rfl | hm
    · generalize s'.shared.cache = cache at hcache
      cases hcache with
      | refused _ hs' => exact hs'
      | stored ho' => cases hs.symm.trans ho'
    · exact h.refused o' hm hs
  · rw [hoffers]
    intro dir listing hg
    simp only [hstale]
    generalize s'.shared.cache = cache at hcache hg
    -- A refused offer leaves what is held. A stored one is the latest of its directory now.
    cases hcache with
    | refused ho' =>
      obtain ⟨o', hm, hgives, hfresh, hlast⟩ := h.held dir listing hg
      refine ⟨o', List.mem_cons_of_mem _ hm, hgives, hfresh, fun o'' hm'' hd hs ↦ ?_⟩
      rcases List.mem_cons.1 hm'' with rfl | hm''
      · cases hs.symm.trans ho'
      · exact hlast o'' hm'' hd hs
    | stored ho' hs' =>
      rw [AttributeCache.populate, KeyMap.get?_insert] at hg
      split at hg
      · rename_i hd
        subst hd
        refine ⟨o, List.mem_cons_self, ⟨rfl, ho', (Option.some_inj.1 hg).symm⟩, hs',
          fun o'' hm'' _ _ ↦ ?_⟩
        rcases List.mem_cons.1 hm'' with rfl | hm''
        · exact Nat.le_refl _
        · exact (hearlier o'' hm'').le
      · rename_i hd
        obtain ⟨o', hm, hgives, hfresh, hlast⟩ := h.held dir listing hg
        refine ⟨o', List.mem_cons_of_mem _ hm, hgives, hfresh, fun o'' hm'' hd'' hs ↦ ?_⟩
        rcases List.mem_cons.1 hm'' with rfl | hm''
        · exact absurd hd''.symm hd
        · exact hlast o'' hm'' hd'' hs

theorem accounted_offer {l : Snapshot} (h : Accounted policy s known)
    (hf : c.flight.Known known s.time)
    (hl : c.flight.taken? = some l) (ha : a = .cache (.populateIfCurrent l.dir l.begun.generation
      (Filesystem.recordsOf policy c.caller l.dir l.rows))) :
      Accounted policy (s.take i c a k) (s.also known) := by
  subst ha
  obtain ⟨hbegun, hbt, htime⟩ := hf.taken l hl
  have hoffered (x : Bool) : offersOf c s.time (.cache (.populateIfCurrent l.dir l.begun.generation
      (Filesystem.recordsOf policy c.caller l.dir l.rows))) x = [⟨l, c.caller, s.time, x⟩] := by
    rw [offersOf, hl]
    rfl
  let answer := s.shared.cache.populateIfCurrent l.dir l.begun.generation
    (Filesystem.recordsOf policy c.caller l.dir l.rows)
  have htaken : Taken policy ⟨l, c.caller, s.time, answer.1⟩ s.shared.cache answer.2 := by
    unfold answer AttributeCache.populateIfCurrent
    split
    · rename_i hs
      exact .refused rfl hs
    · rename_i hs
      exact .stored rfl (Bool.eq_false_iff.2 hs)
  exact accounted_push h ⟨hbegun, hbt, htime, rfl⟩ rfl
    (congrArg (· ++ s.offers) (hoffered answer.1)) htaken

theorem accounted_take (ht : Timely policy s known) (h : Accounted policy s known)
    (hc : s.calls[i]? = some c)
    (hk : c.rest = .step a k) : Accounted policy (s.take i c a k) (s.also known) := by
  obtain ⟨hoffers, hknown⟩ := ht.calls c (List.mem_of_getElem? hc)
  rw [hk] at hoffers
  rcases offered_cases (s := s) hoffers.1 with ⟨l, hl, ha⟩ | ⟨ho, hl⟩
  · exact accounted_offer h hknown hl ha
  · exact accounted_quiet ht h ho hl

theorem accounted_next {choice : Choice σ} (ht : Timely policy s known)
    (h : Accounted policy s known)
    (hl : ∀ caller call, choice = .start caller call → call.lists = true) :
    ∃ known', Timely policy (next policy s choice) known' ∧
    Accounted policy (next policy s choice) known' := by
  cases choice with
  | start caller call =>
    refine ⟨known, ⟨ht.past, ht.ordered, fun c hc ↦ ?_⟩, ⟨h.offers, h.single, h.refused, h.held⟩⟩
    rcases List.mem_append.1 hc with hc | hc
    · exact ht.calls c hc
    · obtain rfl := List.mem_singleton.1 hc
      exact ⟨offers_program (hl caller call rfl), nofun, nofun⟩
  | advance i =>
    simp only [next]
    split
    · exact ⟨known, ht, h⟩
    · rename_i c hc
      split
      · exact ⟨known, ht, h⟩
      · rename_i a k hk
        exact ⟨s.also known, timely_take ht hc hk, accounted_take ht h hc hk⟩
  | change f =>
    exact ⟨known, ⟨ht.past, ht.ordered, ht.calls⟩, ⟨h.offers, h.single, h.refused, h.held⟩⟩

theorem accounted_run (policy : Policy) (device : σ) {schedule : List (Choice σ)}
    (hl : ∀ caller call, .start caller call ∈ schedule → call.lists = true) :
    ∃ known, Timely policy (run policy device schedule) known ∧
    Accounted policy (run policy device schedule) known := by
  suffices hgen : ∀ s : State σ, (∃ known, Timely policy s known ∧ Accounted policy s known) →
      ∃ known, Timely policy (schedule.foldl (next policy) s) known ∧
        Accounted policy (schedule.foldl (next policy) s) known from
    hgen _ ⟨_, timely_initial policy device, accounted_initial policy device⟩
  induction schedule with
  | nil => exact fun _ h ↦ h
  | cons choice schedule ih =>
    intro s hs
    obtain ⟨known, ht, h⟩ := hs
    refine ih (fun caller call hm ↦ hl caller call (List.mem_cons_of_mem _ hm)) _
      (accounted_next ht h ?_)
    exact fun caller call he ↦ hl caller call (he ▸ List.mem_cons_self)

omit [RemoteDevice σ] in
/-- A listing that was taken after the one that is held was in flight together with it. The
cache had stored it before, or it was begun before the directory was dropped, and the one that
is held thereafter. -/
theorem Accounted.later_cases (ht : Timely policy s known) (h : Accounted policy s known)
    {o o' : Offer} {dir : RemotePath} (ho : o ∈ s.offers) (ho' : o' ∈ s.offers) (hd : o'.dir = dir)
    (hfresh : s.shared.cache.staleSince dir o.begun.generation = false)
    (hlast : ∀ o' ∈ s.offers, o'.dir = dir → o'.stored = true → o'.time ≤ o.time)
    (hlater : o.taken < o'.taken) :
    o'.Overlaps o ∧ (o'.stored = true ∧ o'.time < o.time ∨
      o'.stored = false ∧ o'.begun.generation < o.begun.generation) := by
  obtain ⟨hk, hbt, hto, -⟩ := h.offers o ho
  obtain ⟨hk', hbt', hto', -⟩ := h.offers o' ho'
  cases hs : o'.stored with
  | true =>
    have hle := hlast o' ho' hd hs
    have hne : o'.time ≠ o.time := by
      intro he
      rw [h.single o' ho' o ho he] at hlater
      exact Nat.lt_irrefl _ hlater
    refine ⟨⟨?_, ?_⟩, .inl ⟨rfl, Nat.lt_of_le_of_ne hle hne⟩⟩ <;> omega
  | false =>
    have hstale := h.refused o' ho' hs
    rw [hd] at hstale
    have hlt : o'.begun.generation < o.begun.generation := by
      by_contra hge
      have hstale' := AttributeCache.staleSince_anti hstale (Nat.le_of_not_lt hge)
      rw [hfresh] at hstale'
      cases hstale'
    have hbegun := ht.ordered _ _ hk' hk hlt
    refine ⟨⟨?_, ?_⟩, .inr ⟨rfl, hlt⟩⟩ <;> omega

/-- However calls that list are interleaved with each other and with changes of the device: what
the cache holds of a directory is the listing that it stored last. It is the one that was taken
last of all that were offered, unless one that was taken later was in flight together with it
and had been stored before, or was refused for a drop of the directory that came after it was
begun and before the one that is held was. -/
theorem cached_listing_latest_iff (policy : Policy) (device : σ) (schedule : List (Choice σ))
    (hl : ∀ caller call, .start caller call ∈ schedule → call.lists = true) {dir : RemotePath}
    {listing : KeyMap String Attributes}
    (h : (run policy device schedule).shared.cache.listings.get? dir = some listing) :
    ∃ o ∈ (run policy device schedule).offers, o.Gives policy dir listing ∧
      (∀ o' ∈ (run policy device schedule).offers, o'.dir = dir → o'.stored = true →
        o'.time ≤ o.time) ∧
      ((∀ o' ∈ (run policy device schedule).offers, o'.dir = dir → o'.taken ≤ o.taken) ↔
        ∀ o' ∈ (run policy device schedule).offers, o'.dir = dir → o'.Overlaps o →
        o.taken < o'.taken →
          ¬(o'.stored = true ∧ o'.time < o.time) ∧
          ¬(o'.stored = false ∧ o'.begun.generation < o.begun.generation)) := by
  obtain ⟨known, ht, ha⟩ := accounted_run policy device hl
  obtain ⟨o, ho, hgives, hfresh, hlast⟩ := ha.held dir listing h
  refine ⟨o, ho, hgives, hlast, fun hlatest o' ho' hd _ hlater ↦ ?_, fun hnone o' ho' hd ↦ ?_⟩
  · exact absurd (hlatest o' ho' hd) (Nat.not_le_of_lt hlater)
  · by_contra hgt
    have hlater : o.taken < o'.taken := Nat.lt_of_not_le hgt
    obtain ⟨hoverlap, hcases⟩ := ha.later_cases ht ho ho' hd hfresh hlast hlater
    obtain ⟨hstored, hrefused⟩ := hnone o' ho' hd hoverlap hlater
    exact hcases.elim hstored hrefused

section Examples

open Memory Interleaving

def singleFile : Device :=
  { Device.empty 64 with tree := (Device.empty 64).tree.insertFile fileA [] }

/-- The root is listed for a first call, then `fileA` is written by someone else, the root is
listed for a second call and stored, and at last the first listing is stored. -/
def overtakenByListing : List (Choice Device) :=
  [.start user (.getattr fileA), .advance 0, .advance 0, .advance 0,
    .change fun d ↦ { d with tree := d.tree.insertFile fileA [1, 2] },
    .start user (.readdir .root), .advance 1, .advance 1, .advance 1, .advance 0]

theorem lists_overtakenByListing (caller : Caller) (call : Call RemotePath)
    (h : .start caller call ∈ overtakenByListing) : call.lists = true := by
  simp only [overtakenByListing, List.mem_cons, Choice.start.injEq, reduceCtorEq,
    List.not_mem_nil, or_false, false_or] at h
  rcases h with ⟨-, rfl⟩ | ⟨-, rfl⟩ <;> rfl

def outdatedListing : KeyMap String Attributes :=
  KeyMap.empty.insert "a" ⟨.file, 0o444, 0, 1000, 100⟩

theorem cached_listing_latest_iff_overtaken :
    ∃ o ∈ (run .standard singleFile overtakenByListing).offers,
    o.Gives .standard .root outdatedListing ∧
      (∀ o' ∈ (run .standard singleFile overtakenByListing).offers,
        o'.dir = .root → o'.stored = true → o'.time ≤ o.time) ∧
      ((∀ o' ∈ (run .standard singleFile overtakenByListing).offers, o'.dir = .root →
        o'.taken ≤ o.taken) ↔
        ∀ o' ∈ (run .standard singleFile overtakenByListing).offers, o'.dir = .root →
        o'.Overlaps o →
          o.taken < o'.taken → ¬(o'.stored = true ∧ o'.time < o.time) ∧
            ¬(o'.stored = false ∧ o'.begun.generation < o.begun.generation)) :=
  cached_listing_latest_iff .standard singleFile overtakenByListing lists_overtakenByListing
    (by decide +kernel)

/-- A listing that was taken earlier can take the place of one that was taken later. -/
theorem cached_listing_overtaken :
    ¬∀ (policy : Policy) (device : Device) (schedule : List (Choice Device)),
    (∀ caller call, .start caller call ∈ schedule → call.lists = true) →
    ∀ dir listing, (run policy device schedule).shared.cache.listings.get? dir = some listing →
      ∃ o ∈ (run policy device schedule).offers, o.Gives policy dir listing ∧
        ∀ o' ∈ (run policy device schedule).offers, o'.dir = dir → o'.taken ≤ o.taken := by
  intro h
  obtain ⟨o, ho, hgives, hlatest⟩ :=
    h .standard singleFile overtakenByListing lists_overtakenByListing .root
    outdatedListing (by decide +kernel)
  -- The listing that shows the bytes was taken at the fifth step, and does not give what is held.
  have htaken : ∀ o ∈ (run .standard singleFile overtakenByListing).offers, o.taken < 4 ∨
      outdatedListing ≠ .ofList (Filesystem.recordsOf .standard o.caller .root o.rows) := by
        decide +kernel
  have hnewest : ∃ o ∈ (run .standard singleFile overtakenByListing).offers,
      o.dir = .root ∧ 4 ≤ o.taken := by
    decide +kernel
  obtain ⟨o', ho', hd, hge⟩ := hnewest
  have hlt := (htaken o ho).resolve_right (not_not_intro hgives.listing)
  have hle := hlatest o' ho' hd
  omega

end Examples

end ListingOrder

end RemoteMount
