import Mathlib.Data.List.Induction
import RemoteMount.Proofs.CachedKinds
import RemoteMount.Proofs.Host.FileCalls
import RemoteMount.Proofs.Host.FreshRecords

namespace RemoteMount

open Filesystem

/-- A cached record tells what a fresh one does, but for the size, which is too large if it is
wrong. -/
structure Attributes.Covers (strict : Prop) (a b : Attributes) : Prop where
  alike : a = { b with size := a.size }
  le : b.size ≤ a.size
  ge : strict → a.size ≤ b.size

/-- The path is cached, and a write of nothing is granted past its end. -/
structure Overshoots {σ : Type} [RemoteDevice σ] (policy : Policy) (caller : Caller)
    (m : CachedDevice σ) (path : RemotePath) (offset : UInt64) : Prop where
  cached : ∃ a, m.cache.lookup path = some a
  beyond : ∃ b, freshRecord policy caller m.device path = some b ∧ b.size < offset
  granted : ((Filesystem.write path [] offset).run m).1 = .ok 0

namespace Attributes.Covers

variable {strict : Prop} {a b : Attributes} {s t : UInt64}

theorem refl (a : Attributes) : a.Covers strict a :=
  ⟨rfl, UInt64.le_refl _, fun _ ↦ UInt64.le_refl _⟩

theorem eq (h : a.Covers strict b) (hs : strict) : a = b := by
  have hsize := UInt64.le_antisymm (h.ge hs) h.le
  rw [h.alike, hsize]

theorem resize (h : a.Covers strict b) (hle : t ≤ s) (hge : strict → s ≤ t) :
    { a with size := s }.Covers strict { b with size := t } := by
  refine ⟨?_, hle, hge⟩
  rw [h.alike]

end Attributes.Covers

namespace Host

open Device FileStore Program

variable {strict : Prop} {policy : Policy} {caller : Caller} {E E' : RemotePath → Prop}
    {m m' : CachedDevice Device}
variable {path dir old new p : RemotePath}

/-- Every cached record covers the fresh one, but for paths that a call has not settled yet. -/
structure Kept (strict : Prop) (policy : Policy) (caller : Caller) (E : RemotePath → Prop)
    (m : CachedDevice Device) :
    Prop where
  sound : m.device.Sound
  plain : m.device.store.Plain
  covers : ∀ p a, ¬E p → m.cache.lookup p = some a →
    ∃ b, freshRecord policy caller m.device p = some b ∧ a.Covers strict b

abbrev AllKept (strict : Prop) (policy : Policy) (caller : Caller)
    (m : CachedDevice Device) : Prop :=
  Kept strict policy caller (fun _ ↦ False) m

namespace Kept

theorem mono (h : Kept strict policy caller E m) (hE : ∀ p, E p → E' p) :
    Kept strict policy caller E' m :=
  ⟨h.sound, h.plain, fun p a hp ↦ h.covers p a (mt (hE p) hp)⟩

theorem drop {a : CacheAccess} (h : Kept strict policy caller E m)
    (hs : ∀ c p, a.stores c p = false) :
    Kept strict policy caller (fun p ↦ E p ∧ ¬a.Drops p.parent) ⟨m.device, (a.run m.cache).2⟩ := by
  refine ⟨h.sound, h.plain, fun p r hp hr ↦ ?_⟩
  by_cases hd : a.Drops p.parent
  · rw [CacheAccess.lookup_of_drops hd] at hr
    cases hr
  · rw [CacheAccess.lookup_run_of_not_stores hd (hs _ p)] at hr
    exact h.covers p r (fun hE ↦ hp ⟨hE, hd⟩) hr

theorem request {r : Request} (h : Kept strict policy caller E m) (hs : r.stores? = none) :
    Kept strict policy caller (fun p ↦ E p ∨ r.Names p) ⟨(m.device.answer r).2, m.cache⟩ := by
  have hplain := h.sound.plain_answer h.plain r
  refine ⟨h.sound.answer r, hplain, fun p a hp ha ↦ ?_⟩
  obtain ⟨hE, hn⟩ := not_or.1 hp
  rw [freshRecord_congr h.plain hplain (foundAt_answer h.plain hs hn)]
  exact h.covers p a hE ha

section Settling

variable {α : Type} {call : Program (Except CallError α)} {x : Except RemoteError α}
    {store : FileStore}

theorem unchanged (h : AllKept strict policy caller m)
    (hx : Settled m.device.store m.cache x (call.run m)) :
    AllKept strict policy caller (call.run m).2 := by
  have hplain := h.sound.plain_run h.plain call
  refine ⟨h.sound.run call, hplain, fun p a _ ha ↦ ?_⟩
  rw [freshRecord_congr h.plain hplain (by rw [hx.store])]
  rw [hx.cache] at ha
  exact h.covers p a not_false ha

theorem resized (h : AllKept strict policy caller m) {before : Content} (after : Content)
    {size : UInt64} (hx : Settled store (m.cache.updateSize path size).2 x (call.run m))
    (hbefore : m.device.store.foundAt path = some (.file before.toBytes))
    (hafter : store.foundAt = Function.update m.device.store.foundAt path
      (some (.file after.toBytes)))
    (hle : after.size.toUInt64 ≤ size)
    (hge : strict → (∃ a, m.cache.lookup path = some a) → size ≤ after.size.toUInt64) :
    AllKept strict policy caller (call.run m).2 := by
  have hp := h.sound.plain_run h.plain call
  rw [← hx.store] at hafter
  refine ⟨h.sound.run call, hp, fun p a _ ha ↦ ?_⟩
  rw [hx.cache, AttributeCache.lookup_updateSize] at ha
  split at ha
  · rename_i he
    subst he
    obtain ⟨a, hcached, rfl⟩ := Option.map_eq_some_iff.1 ha
    obtain ⟨b, hb, hcovers⟩ := h.covers p a not_false hcached
    refine ⟨{ b with size := after.size.toUInt64 }, ?_,
      hcovers.resize hle fun hstrict ↦ hge hstrict ⟨a, hcached⟩⟩
    rw [freshRecord_of_file h.plain hp hbefore (by rw [hafter, Function.update_self]), hb,
      Option.map_some, Content.length_toBytes]
  · rename_i hne
    rw [freshRecord_congr h.plain hp (by rw [hafter, Function.update_of_ne hne])]
    exact h.covers p a not_false ha

end Settling

end Kept

section Calls

theorem kept_refresh (h : AllKept strict policy caller m) :
    AllKept strict policy caller ((refresh policy caller dir).run m).2 := by
  have hanswer : (RemoteDevice.answer (.listdir dir) m.device).1 = listing m.device.store dir := rfl
  cases hl : listing m.device.store dir with
  | error e =>
    rw [run_refresh_of_error (hanswer.trans hl)]
    exact h
  | ok rows =>
    rw [run_refresh_of_ok (hanswer.trans hl)]
    refine ⟨h.sound, h.plain, fun p a _ ha ↦ ?_⟩
    dsimp only at ha
    unfold AttributeCache.populateIfCurrent at ha
    split at ha
    · exact h.covers p a not_false ha
    · rcases AttributeCache.lookup_populate_cases ha with ⟨name, hp, hn, hm⟩ | ⟨-, ha⟩
      · exact ⟨a, freshRecord_of_mem h.plain hl hp hn hm, .refl a⟩
      · exact h.covers p a not_false ha

theorem kept_getattr (h : AllKept strict policy caller m) :
    AllKept strict policy caller ((getattr policy caller path).run m).2 := by
  unfold getattr
  split
  · exact h
  · rw [run_bind, run_access]
    dsimp only [CacheAccess.run]
    split
    · exact h
    · have hrefreshed := @kept_refresh strict policy caller m path.parent h
      rw [run_bind]
      split
      · exact hrefreshed
      · split <;> exact hrefreshed

theorem kept_readdir (h : AllKept strict policy caller m) :
    AllKept strict policy caller ((readdir policy caller path).run m).2 := by
  have hrefreshed := @kept_refresh strict policy caller m path h
  rw [readdir, run_bind]
  split <;> exact hrefreshed

theorem kept_invalidateAll {touched : List RemotePath} (h : Kept strict policy caller E m) :
    Kept strict policy caller (fun p ↦ E p ∧ p.parent ∉ touched)
      ((invalidateAll touched).run m).2 := by
  induction touched generalizing m E with
  | nil => exact h.mono fun p hp ↦ ⟨hp, List.not_mem_nil⟩
  | cons dir touched ih =>
    rw [invalidateAll, run_bind, run_access]
    refine (ih (h.drop fun _ _ ↦ rfl)).mono ?_
    intro p hx
    obtain ⟨⟨hE, hd⟩, hp⟩ := hx
    exact ⟨hE, List.not_mem_cons_of_ne_of_not_mem hd hp⟩

theorem kept_mutate {touched : List RemotePath} {mutation : Program (Except RemoteError Unit)}
    (h : AllKept strict policy caller m)
    (hm : ∀ m, AllKept strict policy caller m → Kept strict policy caller E (mutation.run m).2) :
    Kept strict policy caller (fun p ↦ E p ∧ p.parent ∉ touched)
      ((mutate touched mutation).run m).2 := by
  have hbefore : AllKept strict policy caller ((invalidateAll touched).run m).2 :=
    (kept_invalidateAll h).mono fun _ hp ↦ hp.1
  rw [mutate, run_bind, run_bind, run_bind]
  exact kept_invalidateAll (hm _ hbefore)

theorem kept_mutate_parent {mutation : Program (Except RemoteError Unit)}
    (h : AllKept strict policy caller m)
    (hm : ∀ m, AllKept strict policy caller m →
      Kept strict policy caller (· = path) (mutation.run m).2) :
    AllKept strict policy caller ((remotely (mutate [path.parent] mutation)).run m).2 := by
  rw [run_remotely]
  refine (kept_mutate h hm).mono ?_
  intro p hx
  obtain ⟨rfl, hp⟩ := hx
  exact hp (List.mem_singleton_self _)

theorem kept_request {r : Request} (h : AllKept strict policy caller m) (hs : r.stores? = none)
    (hn : ∀ p, r.Names p → E p) : Kept strict policy caller E ((request r).run m).2 :=
  (h.request hs).mono fun p hp ↦ hn p (hp.resolve_left not_false)

theorem kept_mkdir (h : AllKept strict policy caller m) :
    AllKept strict policy caller ((mkdir path).run m).2 :=
  kept_mutate_parent h fun _ h' ↦ kept_request h' rfl fun _ hp ↦ hp

theorem kept_unlink (h : AllKept strict policy caller m) :
    AllKept strict policy caller ((unlink path).run m).2 :=
  kept_mutate_parent h fun _ h' ↦ kept_request h' rfl fun _ hp ↦ hp

theorem kept_rmdir (h : AllKept strict policy caller m) :
    AllKept strict policy caller ((rmdir path).run m).2 := by
  rw [Filesystem.rmdir, run_bind, run_access]
  exact kept_mutate_parent ((h.drop fun _ _ ↦ rfl).mono fun _ hp ↦ hp.1) fun _ h' ↦
    kept_request h' rfl fun _ hp ↦ hp

theorem kept_create (h : AllKept strict policy caller m) :
    AllKept strict policy caller ((create path).run m).2 := by
  refine kept_mutate_parent h fun m h ↦ ?_
  have hopened : Kept strict policy caller (· = path)
      ⟨(m.device.answer (.openFile path .createWrite)).2, m.cache⟩ :=
    (h.request rfl).mono fun _ hp ↦ hp.resolve_left not_false
  cases ho : m.device.answer (.openFile path .createWrite) with
  | mk x d =>
    rw [ho] at hopened
    cases x with
    | error e =>
      rw [run_withSession_of_error ho]
      exact hopened
    | ok id =>
      rw [run_withSession_of_ok ho rfl rfl]
      exact (hopened.request (r := .close id) rfl).mono fun _ hp ↦ hp.resolve_right not_false

theorem kept_createNew (h : AllKept strict policy caller m) :
    AllKept strict policy caller ((createNew policy caller path).run m).2 := by
  have hrefreshed := @kept_refresh strict policy caller m path.parent h
  rw [createNew, run_bind]
  split
  · exact hrefreshed
  · split
    · exact hrefreshed
    · exact kept_create hrefreshed

theorem kept_rename (h : AllKept strict policy caller m) :
    AllKept strict policy caller ((rename old new).run m).2 := by
  -- The first two drops settle nothing: what the request unsettles is dropped after it.
  have h₁ : AllKept strict policy caller
      ⟨m.device, ((CacheAccess.invalidateTree old).run m.cache).2⟩ :=
    (h.drop fun _ _ ↦ rfl).mono fun _ hp ↦ hp.1
  have h₂ : AllKept strict policy caller
      ⟨m.device, ((CacheAccess.invalidateTree new).run
        ((CacheAccess.invalidateTree old).run m.cache).2).2⟩ :=
    (h₁.drop fun _ _ ↦ rfl).mono fun _ hp ↦ hp.1
  have hmutated := @kept_mutate strict policy caller
    (fun p ↦ p.within old = true ∨ p.within new = true) _
    [old.parent, new.parent] (request (.rename old new)) h₂ fun _ h' ↦
      kept_request h' rfl fun _ hp ↦ hp
  rw [Filesystem.rename, run_bind, run_access, run_bind, run_access, run_bind, run_remotely,
    run_bind, run_access, run_bind, run_access]
  refine ((hmutated.drop (a := .invalidateTree old) fun _ _ ↦ rfl).drop (a := .invalidateTree new)
    fun _ _ ↦ rfl).mono ?_
  intro p hx
  obtain ⟨⟨⟨hp | hp, htouched⟩, ho⟩, hn⟩ := hx
  · by_cases he : p = old
    · exact htouched (by simp [he])
    · exact ho (RemotePath.parent_within hp he)
  · by_cases he : p = new
    · exact htouched (by simp [he])
    · exact hn (RemotePath.parent_within hp he)

section Sessions

variable {node : NodeId} {store : FileStore} {mode : OpenMode} {data : Bytes}
    {offset length : UInt64}

theorem file_of_openFile (h : m.device.store.Plain) (hm : mode ≠ .createWrite)
    (ho : openFile m.device.store path mode = .ok (node, store)) : store = m.device.store ∧
      ∃ chain content, m.device.store.chainAt path = some (node :: chain) ∧
        m.device.store.nodes.get? node = some (.file content) ∧ store.content node = content := by
  have hopened := h.opened_of_openFile (openFile_eq_ok ho).2.2
  obtain rfl : store = m.device.store := hopened.same (decide_eq_false hm)
  obtain ⟨chain, hchain⟩ := hopened.chainAt
  obtain ⟨content, hfile, -⟩ := hopened.file
  exact ⟨rfl, chain, content, hchain, hfile, by rw [FileStore.content, hfile]⟩

theorem kept_read {max : Nat} (h : AllKept strict policy caller m) :
    AllKept strict policy caller ((Filesystem.read path max offset).run m).2 := by
  cases ho : openFile m.device.store path .read with
  | error e =>
    rw [Filesystem.read, run_session_of_error ho]
    exact h
  | ok y =>
    obtain ⟨node, store⟩ := y
    obtain ⟨rfl, chain, content, hchain, hfile, hcontent⟩ := file_of_openFile h.plain (by decide) ho
    have hsettled := settled_read ho max offset
    have hfound := foundAt_of_chainAt hchain hfile
    rw [hcontent] at hsettled
    exact h.resized content hsettled hfound (Function.update_eq_self_iff.2 hfound.symm).symm
      (UInt64.le_refl _)
      fun _ _ ↦ UInt64.le_refl _

theorem le_max_size (a b : UInt64) : a ≤ max a b := by
  change a ≤ if a ≤ b then b else a
  split
  · assumption
  · exact UInt64.le_refl a

theorem max_le_size {a b c : UInt64} (ha : a ≤ c) (hb : b ≤ c) : max a b ≤ c := by
  change (if a ≤ b then b else a) ≤ c
  split <;> assumption

theorem max_eq_of_lt {a b : UInt64} (h : a < b) : max a b = b := if_pos (UInt64.le_of_lt h)

theorem saturatingEnd_zero (offset : UInt64) : saturatingEnd offset 0 = offset := by
  have hlt := offset.toNat_lt_size
  rw [saturatingEnd, if_pos (by omega)]
  simp

theorem kept_write (h : AllKept strict policy caller m)
    (hw : strict → data = [] → ¬Overshoots policy caller m path offset) :
    AllKept strict policy caller ((Filesystem.write path data offset).run m).2 := by
  cases ho : openFile m.device.store path .write with
  | error e =>
    rw [Filesystem.write, run_session_of_error ho]
    exact h
  | ok y =>
    obtain ⟨node, store⟩ := y
    obtain ⟨rfl, chain, content, hchain, hfile, hcontent⟩ := file_of_openFile h.plain (by decide) ho
    have hfound := foundAt_of_chainAt hchain hfile
    cases hwritten : written content data offset with
    | error e => exact h.unchanged (settled_write_of_error ho (by rw [hcontent, hwritten]))
    | ok after =>
      have hsettled := settled_write_of_ok ho (by rw [hcontent, hwritten])
      have hstore := (h.plain.foundAt_setContent hchain hfile after).2
      refine h.resized after hsettled hfound hstore (le_max_size _ _) fun hstrict hcached ↦ ?_
      obtain ⟨a, ha⟩ := hcached
      obtain ⟨b, hb, -⟩ := h.covers path a not_false ha
      have hsize := size_of_freshRecord h.plain hfound hb
      rw [Content.length_toBytes] at hsize
      unfold written at hwritten
      split at hwritten
      · cases hwritten
      rename_i hfits
      by_cases hd : data = []
      -- Nothing is written, so the offset is cached as the size if it lies past the end.
      · subst hd
        obtain rfl : content = after := by simpa using hwritten
        rw [List.length_nil, saturatingEnd_zero]
        refine max_le_size (UInt64.le_refl _)
          (UInt64.not_lt.1 fun hlt ↦ hw hstrict rfl ⟨⟨a, ha⟩, ⟨b, hb, ?_⟩, ?_⟩)
        · rwa [hsize]
        · rw [hsettled.answer]
          rfl
      · obtain rfl : content.overwrite offset.toNat data = after := by simpa [hd] using hwritten
        have hlimit : Session.offsetLimit < UInt64.size := by decide
        have hold := h.plain.lengths node content hfile
        have hend : offset.toNat + data.length < Session.offsetLimit :=
          Nat.not_le.1 fun hx ↦ hfits (.inr ⟨hd, hx⟩)
        rw [max_size_overwrite (hold.trans hlimit) (hend.trans hlimit)]
        exact UInt64.le_refl _

theorem exists_wrong_of_overshoots (h : AllKept True policy caller m)
    (ho : Overshoots policy caller m path offset) :
    ∃ a, ((Filesystem.write path [] offset).run m).2.cache.lookup path = some a ∧
      freshRecord policy caller ((Filesystem.write path [] offset).run m).2.device path ≠
        some a := by
  obtain ⟨a, ha⟩ := ho.cached
  obtain ⟨b, hb, hlt⟩ := ho.beyond
  have hgranted := ho.granted
  obtain ⟨b', hb', hcovers⟩ := h.covers path a not_false ha
  obtain rfl : b = b' := Option.some_inj.1 (hb.symm.trans hb')
  obtain rfl : a = b := hcovers.eq trivial
  cases hopen : openFile m.device.store path .write with
  | error e =>
    rw [Filesystem.write, run_session_of_error hopen] at hgranted
    cases hgranted
  | ok y =>
    obtain ⟨node, store⟩ := y
    obtain ⟨rfl, chain, content, hchain, hfile, hcontent⟩ :=
      file_of_openFile h.plain (by decide) hopen
    have hfound := foundAt_of_chainAt hchain hfile
    have hsize := size_of_freshRecord h.plain hfound hb
    rw [Content.length_toBytes] at hsize
    cases hwritten : written content [] offset with
    | error e =>
      have hsettled := settled_write_of_error hopen (by rw [hcontent, hwritten])
      cases hsettled.answer.symm.trans hgranted
    | ok after =>
      have hsettled := settled_write_of_ok hopen (by rw [hcontent, hwritten])
      have hafter : after = content := by
        unfold written at hwritten
        split at hwritten
        · cases hwritten
        · exact (Except.ok.inj hwritten).symm
      have hstore := (h.plain.foundAt_setContent hchain hfile after).2
      refine ⟨{ a with size := offset }, ?_, ?_⟩
      · rw [hsettled.cache, AttributeCache.lookup_updateSize, if_pos rfl, ha, hafter, ← hsize,
          List.length_nil, saturatingEnd_zero, max_eq_of_lt hlt]
        rfl
      · rw [freshRecord_congr h.plain (h.sound.plain_run h.plain _), hb]
        · intro he
          have hsame : a.size = offset := congrArg Attributes.size (Option.some_inj.1 he)
          exact UInt64.lt_irrefl _ (hsame ▸ hlt)
        · rw [hsettled.store]
          refine (congrFun hstore path).trans ?_
          rw [Function.update_self, hfound, hafter]
          rfl

theorem kept_truncate (h : AllKept strict policy caller m) :
    AllKept strict policy caller ((Filesystem.truncate path length).run m).2 := by
  cases ho : openFile m.device.store path .write with
  | error e =>
    rw [run_truncate_of_error ho]
    exact h
  | ok y =>
    obtain ⟨node, store⟩ := y
    obtain ⟨rfl, chain, content, hchain, hfile, hcontent⟩ := file_of_openFile h.plain (by decide) ho
    have hfound := foundAt_of_chainAt hchain hfile
    by_cases hl : Session.offsetLimit ≤ length.toNat
    · exact h.unchanged (settled_truncate_of_error ho hl)
    · have hsettled := settled_truncate_of_ok ho hl
      rw [hcontent] at hsettled
      have hsize : (content.resize length.toNat).size.toUInt64 = length := by
        rw [Content.size_resize]
        exact UInt64.ofNat_toNat
      have hstore := (h.plain.foundAt_setContent hchain hfile (content.resize length.toNat)).2
      refine h.resized (content.resize length.toNat) hsettled hfound hstore ?_ fun _ _ ↦ ?_
      · rw [hsize]
        exact UInt64.le_refl _
      · rw [hsize]
        exact UInt64.le_refl _

end Sessions

theorem kept_program (call : Call RemotePath) (h : AllKept strict policy caller m)
    (hw : strict → ∀ path offset, call = .write path [] offset →
      ¬Overshoots policy caller m path offset) :
    AllKept strict policy caller ((call.program policy caller).run m).2 := by
  cases call with
  | getattr path => exact (run_map _ _ m) ▸ kept_getattr h
  | readdir path => exact (run_map _ _ m) ▸ kept_readdir h
  | mkdir path => exact (run_map _ _ m) ▸ kept_mkdir h
  | rmdir path => exact (run_map _ _ m) ▸ kept_rmdir h
  | unlink path => exact (run_map _ _ m) ▸ kept_unlink h
  | create path => exact (run_map _ _ m) ▸ kept_create h
  | createNew path => exact (run_map _ _ m) ▸ kept_createNew h
  | read path max offset => exact (run_map _ _ m) ▸ kept_read h
  | write path data offset =>
    refine (run_map _ _ m) ▸ kept_write h fun hstrict hd ↦ ?_
    subst hd
    exact hw hstrict path offset rfl
  | rename old new => exact (run_map _ _ m) ▸ kept_rename h
  | truncate path length => exact (run_map _ _ m) ▸ kept_truncate h
  | destroy => exact (run_map _ _ m) ▸ (h.drop (a := .clear) fun _ _ ↦ rfl).mono fun _ hp ↦ hp.1

end Calls

variable {calls : List (Call String)}

def Overshooting (policy : Policy) (caller : Caller) (m : CachedDevice Device)
    (call : Call String) : Prop :=
  ∃ path offset, call.resolve = .ok (.write path [] offset) ∧ Overshoots policy caller m path offset

theorem kept_call (call : Call String) (h : AllKept strict policy caller m)
    (hw : strict → ¬Overshooting policy caller m call) :
    AllKept strict policy caller ((call.programOfText policy caller).run m).2 := by
  unfold Call.programOfText
  split
  · rename_i resolved hr
    exact kept_program resolved h fun hstrict path offset he ho ↦
      hw hstrict ⟨path, offset, he ▸ hr, ho⟩
  · exact h

theorem kept_after (h : AllKept strict policy caller m)
    (hw : strict → ∀ earlier call, earlier ++ [call] <+: calls →
      ¬Overshooting policy caller (m.after policy caller earlier) call) :
    AllKept strict policy caller (m.after policy caller calls) := by
  induction calls using List.reverseRecOn with
  | nil => exact h
  | append_singleton calls call ih =>
    rw [CachedDevice.after_concat]
    refine kept_call call (ih fun hstrict earlier c hp ↦ ?_) fun hstrict ↦ ?_
    · exact hw hstrict earlier c (hp.trans (List.prefix_append _ _))
    · exact hw hstrict calls call (List.prefix_refl _)

theorem allKept_empty {d : Device} (hs : d.Sound) (hp : d.store.Plain) :
    AllKept strict policy caller ⟨d, .empty⟩ := by
  refine ⟨hs, hp, fun p a _ ha ↦ ?_⟩
  rw [AttributeCache.lookup_empty] at ha
  cases ha

/-- Over a served directory without links, whatever calls one caller makes: after each of them
every cached record is the one that a fresh listing gives, if and only if no empty write was
granted past the end of a cached file. Even then there is something of the cached kind at every
path with a record, and the size that is cached is no smaller than its own. -/
theorem cached_records_fresh_iff (policy : Policy) (caller : Caller) (d : Device) (hs : d.Sound)
    (hp : d.store.Plain) (calls : List (Call String)) :
    ((∀ earlier, earlier <+: calls → ∀ p a,
        (CachedDevice.after policy caller ⟨d, .empty⟩ earlier).cache.lookup p = some a →
        freshRecord policy caller (CachedDevice.after policy caller ⟨d, .empty⟩ earlier).device p =
          some a) ↔
      ∀ earlier call, earlier ++ [call] <+: calls →
        ¬Overshooting policy caller (CachedDevice.after policy caller ⟨d, .empty⟩ earlier) call) ∧
    ∀ p a, (CachedDevice.after policy caller ⟨d, .empty⟩ calls).cache.lookup p = some a →
      ∃ b, freshRecord policy caller (CachedDevice.after policy caller ⟨d, .empty⟩ calls).device p =
        some b ∧
        a = { b with size := a.size } ∧ b.size ≤ a.size := by
  refine ⟨⟨fun h earlier call hcall hover ↦ ?_, fun h earlier hearlier p a ha ↦ ?_⟩,
    fun p a ha ↦ ?_⟩
  -- Before the empty write all records are exact, and after it the one of its path is not.
  · obtain ⟨path, offset, hr, hover⟩ := hover
    have hkept : AllKept False policy caller
        (CachedDevice.after policy caller ⟨d, .empty⟩ earlier) :=
      kept_after (allKept_empty hs hp) False.elim
    have hexact : AllKept True policy caller
        (CachedDevice.after policy caller ⟨d, .empty⟩ earlier) :=
      ⟨hkept.sound, hkept.plain, fun p a _ ha ↦
        ⟨a, h earlier ((List.prefix_append _ _).trans hcall) p a ha, .refl a⟩⟩
    obtain ⟨a, ha, hwrong⟩ := exists_wrong_of_overshoots hexact hover
    have hrun : (CachedDevice.after policy caller ⟨d, .empty⟩ (earlier ++ [call])) =
        ((Filesystem.write path [] offset).run
          (CachedDevice.after policy caller ⟨d, .empty⟩ earlier)).2 := by
      rw [CachedDevice.after_concat, Call.programOfText, hr]
      exact congrArg Prod.snd (Program.run_map _ _ _)
    exact hwrong (hrun ▸ h (earlier ++ [call]) hcall path a (hrun ▸ ha))
  · have hkept : AllKept True policy caller
        (CachedDevice.after policy caller ⟨d, .empty⟩ earlier) :=
      kept_after (allKept_empty hs hp) fun _ earlier' call hcall ↦
        h earlier' call (hcall.trans hearlier)
    obtain ⟨b, hb, hcovers⟩ := hkept.covers p a not_false ha
    rw [hb, hcovers.eq trivial]
  · have hkept : AllKept False policy caller (CachedDevice.after policy caller ⟨d, .empty⟩ calls) :=
      kept_after (allKept_empty hs hp) False.elim
    obtain ⟨b, hb, hcovers⟩ := hkept.covers p a not_false ha
    exact ⟨b, hb, hcovers.alike, hcovers.le⟩

section Examples

def reader : Caller := ⟨1000, 100, 42⟩

def emptyWrite : List (Call String) := [.getattr "/f", .write "/f" [] 10]

theorem cached_records_fresh_iff_emptyWrite : oneFile.Sound ∧ oneFile.store.Plain ∧
    ∃ b, freshRecord .standard reader
      (CachedDevice.after .standard reader ⟨oneFile, .empty⟩ emptyWrite).device fileName =
        some b ∧ (⟨.file, 0o444, 10, 1000, 100⟩ : Attributes) = { b with size := 10 } ∧
        b.size ≤ 10 :=
  ⟨sound_oneFile, plain_oneFile,
    (cached_records_fresh_iff .standard reader oneFile sound_oneFile plain_oneFile emptyWrite).2
      fileName _
      (by decide +kernel)⟩

/-- The file has one byte then, and ten are cached. -/
theorem cached_size_of_emptyWrite : ¬∀ d :
    Device, d.Sound → d.store.Plain → ∀ (calls : List (Call String)) p a,
    (CachedDevice.after .standard reader ⟨d, .empty⟩ calls).cache.lookup p = some a →
      freshRecord .standard reader (CachedDevice.after .standard reader ⟨d, .empty⟩ calls).device
        p = some a := by
  intro h
  have hcached : (CachedDevice.after .standard reader ⟨oneFile, .empty⟩ emptyWrite).cache.lookup
      fileName =
      some ⟨.file, 0o444, 10, 1000, 100⟩ := by decide +kernel
  have hfresh : freshRecord .standard reader
      (CachedDevice.after .standard reader ⟨oneFile, .empty⟩ emptyWrite).device
      fileName = some ⟨.file, 0o444, 1, 1000, 100⟩ := by decide +kernel
  cases (h oneFile sound_oneFile plain_oneFile emptyWrite fileName _ hcached).symm.trans hfresh

end Examples

end Host

end RemoteMount
