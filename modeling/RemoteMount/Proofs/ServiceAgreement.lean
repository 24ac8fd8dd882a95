import Mathlib.Data.List.Induction
import RemoteMount.Proofs.Host.FileOutcomes
import RemoteMount.Proofs.Memory.Capacity
import RemoteMount.Proofs.Memory.FileOutcomes

namespace RemoteMount

open Memory (Tree)
open Host (storage)
open Host.Session (offsetLimit transferLimit)

/-- With such bytes in the file, a device in memory makes something else of the call than a
served directory. -/
inductive Departure (t : Tree) (capacity : UInt64) (p : RemotePath)
    (bytes : Bytes) : FileCall → Prop
  | emptyWrite {offset : UInt64} (ho : bytes.length < offset.toNat) :
      Departure t capacity p bytes (.write [] offset)
  | noRoomToWrite {data : Bytes} {offset : UInt64} {e : RemoteError}
    (hr : t.requireRoom capacity p (offset + data.length.toUInt64) = .error e) :
    Departure t capacity p bytes (.write data offset)
  | noRoomToCut {length : UInt64} {e : RemoteError}
    (hr : t.requireRoom capacity p length = .error e) :
    Departure t capacity p bytes (.truncate length)
  | writeTooFar {data : Bytes} {offset : UInt64} (ho : offsetLimit ≤ offset.toNat + data.length) :
    Departure t capacity p bytes (.write data offset)
  | cutTooFar {length : UInt64} (hl : offsetLimit ≤ length.toNat) :
    Departure t capacity p bytes (.truncate length)
  | readTooFar {count : Nat} {offset : UInt64}
    (ho : offsetLimit ≤ offset.toNat ∨ count ≠ 0 ∧
      offsetLimit ≤ offset.toNat + min count transferLimit) :
    Departure t capacity p bytes (.read count offset)

def Departs (d : Memory.Device) (p : RemotePath) (call : FileCall) : Prop :=
  Host.Addressable p → ∃ bytes, d.found p = some (.file bytes) ∧
    Departure d.tree d.capacity p bytes call

variable {p : RemotePath} {bytes data : Bytes} {count : Nat} {offset length capacity : UInt64}
    {t : Tree} {call : FileCall}
variable {policy : Policy} {caller : Caller}

section Outcomes

theorem errno_of_requireRoom {e : RemoteError} (h : t.requireRoom capacity p length = .error e) :
    e.errno ∈ [Errno.fbig, Errno.connaborted, Errno.nospc] :=
  List.mem_map_of_mem (f := RemoteError.errno) (Tree.requireRoom_eq_error h)

theorem ne_errno_of_requireRoom {e : RemoteError} {n : Errno}
    (h : t.requireRoom capacity p length = .error e)
    (hn : n ∉ [Errno.fbig, Errno.connaborted, Errno.nospc]) : n ≠ e.errno :=
  fun he ↦ hn (he ▸ errno_of_requireRoom h)

theorem overwrite_nil_eq_iff {start : Nat} :
    bytes = bytes.overwrite start [] ↔ start ≤ bytes.length := by
  constructor
  · intro h
    have hlength := congrArg List.length h
    rw [Bytes.length_overwrite, List.length_nil] at hlength
    omega
  · intro h
    rw [Bytes.overwrite, Bytes.resize, Nat.sub_eq_zero_of_le h]
    simp

theorem read_eq_iff :
    storage.read bytes count offset = (t.storage capacity p).read bytes count offset ↔
    ¬Departure t capacity p bytes (.read count offset) := by
  dsimp only [storage, Tree.storage]
  split
  · rename_i h
    exact iff_of_false nofun (not_not_intro (.readTooFar h))
  · rename_i h
    refine iff_of_true rfl fun hd ↦ ?_
    cases hd with
    | readTooFar ho => exact h ho

theorem cut_eq_iff : storage.cut bytes length = (t.storage capacity p).cut bytes length ↔
    ¬Departure t capacity p bytes (.truncate length) := by
  dsimp only [storage, Tree.storage]
  cases hr : t.requireRoom capacity p length with
  | error e =>
    refine iff_of_false (fun h ↦ ?_) (not_not_intro (.noRoomToCut hr))
    split at h
    · exact ne_errno_of_requireRoom hr (by decide) (Except.error.inj h)
    · cases h
  | ok u =>
    split
    · rename_i h
      exact iff_of_false nofun (not_not_intro (.cutTooFar h))
    · rename_i h
      refine iff_of_true rfl fun hd ↦ ?_
      cases hd with
      | noRoomToCut hr' => cases hr.symm.trans hr'
      | cutTooFar hl => exact h hl

theorem write_of_far (h : offsetLimit ≤ offset.toNat + data.length) :
    storage.write bytes data offset = .error Errno.inval := by
  refine if_pos ?_
  by_cases hd : data = []
  · subst hd
    exact .inl h
  · exact .inr ⟨hd, h⟩

theorem write_of_near (h : ¬offsetLimit ≤ offset.toNat + data.length) :
    storage.write bytes data offset =
      .ok (if data = [] then bytes else bytes.overwrite offset.toNat data) :=
  if_neg fun hfar ↦ hfar.elim (fun ho ↦ h (by omega)) fun ho ↦ h ho.2

theorem write_eq_iff :
    storage.write bytes data offset = (t.storage capacity p).write bytes data offset ↔
    ¬Departure t capacity p bytes (.write data offset) := by
  by_cases hfar : offsetLimit ≤ offset.toNat + data.length
  · rw [write_of_far hfar]
    refine iff_of_false (fun h ↦ ?_) (not_not_intro (.writeTooFar hfar))
    dsimp only [Tree.storage] at h
    split at h
    · cases h
    · cases hr : t.requireRoom capacity p (offset + data.length.toUInt64) with
      | error e =>
        rw [hr] at h
        exact ne_errno_of_requireRoom hr (by decide) (Except.error.inj h)
      | ok u =>
        rw [hr] at h
        cases h
  · have hsmall : ¬UInt64.size ≤ offset.toNat + data.length :=
      fun h ↦ hfar (Nat.le_trans (by decide) h)
    rw [write_of_near hfar]
    dsimp only [Tree.storage]
    rw [if_neg hsmall]
    cases hr : t.requireRoom capacity p (offset + data.length.toUInt64) with
    | error e => exact iff_of_false nofun (not_not_intro (.noRoomToWrite hr))
    | ok u =>
      -- Within the host's range and with room left, only an empty write behind the end departs.
      have hdeparts : Departure t capacity p bytes (.write data offset) ↔
          data = [] ∧ bytes.length < offset.toNat := by
        constructor
        · intro hd
          cases hd with
          | emptyWrite ho => exact ⟨rfl, ho⟩
          | noRoomToWrite hr' => cases hr.symm.trans hr'
          | writeTooFar ho => exact absurd ho hfar
        · intro hd
          obtain ⟨rfl, ho⟩ := hd
          exact .emptyWrite ho
      rw [hdeparts]
      change Except.ok _ = Except.ok _ ↔ _
      rw [Except.ok.injEq]
      by_cases hd : data = []
      · subst hd
        rw [if_pos rfl, overwrite_nil_eq_iff]
        simp
      · simp [hd]

theorem changed_eq_iff {x y : Except Errno Bytes} (a : CallAnswer) :
    ((x.map fun _ ↦ a, some (Found.file (x.toOption.getD bytes))) :
      Except Errno CallAnswer × Option Found) =
      (y.map fun _ ↦ a, some (Found.file (y.toOption.getD bytes))) ↔ x = y := by
  refine ⟨fun h ↦ ?_, fun h ↦ by rw [h]⟩
  obtain ⟨hanswer, hfound⟩ := Prod.mk.inj h
  cases x <;> cases y
  · cases hanswer
    rfl
  · cases hanswer
  · cases hanswer
  · exact congrArg Except.ok (Found.file.inj (Option.some.inj hfound))

theorem data_eq_iff {x y : Except Errno Bytes} :
    x.map CallAnswer.data = y.map CallAnswer.data ↔ x = y := by
  refine ⟨fun h ↦ ?_, fun h ↦ by rw [h]⟩
  cases x <;> cases y <;> cases h <;> rfl

theorem outcome_file_eq_iff : storage.outcome (some (.file bytes)) call =
    (t.storage capacity p).outcome (some (.file bytes)) call ↔
    ¬Departure t capacity p bytes call := by
  cases call with
  | create => exact iff_of_true rfl nofun
  | write data offset => exact (changed_eq_iff _).trans write_eq_iff
  | truncate length => exact (changed_eq_iff _).trans cut_eq_iff
  | read count offset =>
    dsimp only [Storage.outcome]
    rw [Prod.mk.injEq, and_iff_left rfl, data_eq_iff, read_eq_iff]

theorem outcome_eq_iff {d : Memory.Device} (ha : Host.Addressable p) :
    storage.outcome (d.found p) call = (d.tree.storage d.capacity p).outcome (d.found p) call ↔
    ¬Departs d p call := by
  have hdeparts : Departs d p call ↔ ∃ bytes, d.found p = some (.file bytes) ∧
      Departure d.tree d.capacity p bytes call :=
    ⟨fun h ↦ h ha, fun h _ ↦ h⟩
  rw [hdeparts]
  cases hf : d.found p with
  | none => exact iff_of_true (by cases call <;> rfl) (by simp)
  | some f =>
    cases f with
    | file bytes => simpa using outcome_file_eq_iff
    | directory => exact iff_of_true (by cases call <;> rfl) (by simp)
    | link => exact iff_of_true (by cases call <;> rfl) (by simp)

theorem outcome_ne_nametoolong (f : Option Found) :
    .error Errno.nametoolong ≠ ((t.storage capacity p).outcome f call).1 := by
  cases f with
  | none => cases call <;> nofun
  | some f =>
    cases f with
    | directory => cases call <;> nofun
    | link => cases call <;> nofun
    | file bytes =>
      cases call with
      | create => nofun
      | read count offset => nofun
      | truncate length =>
        dsimp only [Storage.outcome, Tree.storage]
        cases hr : t.requireRoom capacity p length with
        | ok u => nofun
        | error e => exact fun h ↦ ne_errno_of_requireRoom hr (by decide) (Except.error.inj h)
      | write data offset =>
        dsimp only [Storage.outcome, Tree.storage]
        split
        · nofun
        · cases hr : t.requireRoom capacity p (offset + data.length.toUInt64) with
          | ok u => nofun
          | error e => exact fun h ↦ ne_errno_of_requireRoom hr (by decide) (Except.error.inj h)

end Outcomes

section Steps

variable {l : CachedDevice Host.Device} {m : CachedDevice Memory.Device}

/-- A served directory without links, and a device in memory that fails no request by a fault,
with the same at a path in a directory. -/
structure Twins (p : RemotePath) (l : CachedDevice Host.Device)
    (m : CachedDevice Memory.Device) : Prop where
  sound : l.device.Sound
  plain : l.device.store.Plain
  faultless : ∀ op, m.device.faults.get? op = none
  hostParent : l.device.found p.parent = some .directory
  memoryParent : m.device.found p.parent = some .directory
  same : l.device.found p = m.device.found p

def Agree (policy : Policy) (caller : Caller) (p : RemotePath) (l : CachedDevice Host.Device)
    (m : CachedDevice Memory.Device) (call : FileCall) : Prop :=
  told (((call.toCall p.text).programOfText policy caller).run l).1 =
      told (((call.toCall p.text).programOfText policy caller).run m).1 ∧
    (((call.toCall p.text).programOfText policy caller).run l).2.device.found p =
      (((call.toCall p.text).programOfText policy caller).run m).2.device.found p

theorem Twins.leaves (policy : Policy) (caller : Caller) (h : Twins p l m) (call : FileCall) :
    Memory.Leaves p m.device.capacity m.device
      ((m.device.tree.storage m.device.capacity p).outcome (m.device.found p) call)
      (((call.toCall p).program policy caller).run m) :=
  Memory.leaves_of_idle policy caller ⟨rfl, rfl, h.faultless⟩ h.memoryParent call

theorem Twins.exists_comes (policy : Policy) (caller : Caller) (h : Twins p l m) (call : FileCall) :
    ∃ out, Comes Host.Device.found p l.device out (((call.toCall p).program policy caller).run l) ∧
      (out = (m.device.tree.storage m.device.capacity p).outcome (m.device.found p) call ↔
        ¬Departs m.device p call) ∧
      (l.device.found p = some .directory → out.2 = some .directory) := by
  by_cases ha : Host.Addressable p
  · refine ⟨_, Host.Device.comes_of_addressable policy caller h.plain ha h.hostParent call, ?_,
      fun hd ↦ ?_⟩
    · rw [← outcome_eq_iff ha, ← h.same]
      rfl
    · change l.device.store.foundAt p = _ at hd
      rw [hd]
      rfl
  · refine ⟨_, Host.Device.comes_of_unaddressable policy caller h.plain ha h.hostParent call, ?_,
      fun hd ↦ hd⟩
    exact iff_of_false (fun he ↦ outcome_ne_nametoolong _ (congrArg Prod.fst he))
      (not_not_intro fun hx ↦ absurd hx ha)

theorem agree_iff (h : Twins p l m) :
    Agree policy caller p l m call ↔ ¬Departs m.device p call := by
  obtain ⟨out, hl, hout, -⟩ := h.exists_comes policy caller call
  have hm := (h.leaves policy caller call).1
  rw [Agree, FileCall.programOfText_toCall, hl.told, hm.told, hl.found, hm.found,
    Function.update_self, Function.update_self, ← Prod.ext_iff, hout]

theorem parent_of_comes {σ : Type} {found : σ → RemotePath → Option Found} {d : σ}
    {out : Except Errno CallAnswer × Option Found}
    {r : Except CallError CallAnswer × CachedDevice σ}
    (hc : Comes found p d out r) (hp : found d p.parent = some .directory)
    (hout : found d p = some .directory → out.2 = some .directory) :
    found r.2.device p.parent = some .directory := by
  rw [hc.found, Function.update_apply]
  split
  · rename_i he
    rw [he] at hp
    exact hout hp
  · exact hp

theorem Twins.next (h : Twins p l m) (ha : Agree policy caller p l m call) :
    Twins p (((call.toCall p.text).programOfText policy caller).run l).2
      (((call.toCall p.text).programOfText policy caller).run m).2 := by
  have hsame := ha.2
  rw [FileCall.programOfText_toCall] at hsame ⊢
  obtain ⟨out, hl, -, hout⟩ := h.exists_comes policy caller call
  obtain ⟨hm, t, hidle⟩ := h.leaves policy caller call
  refine ⟨h.sound.run _, h.sound.plain_run h.plain _, hidle.faultless,
    parent_of_comes hl h.hostParent hout, parent_of_comes hm h.memoryParent fun hd ↦ ?_, hsame⟩
  rw [hd]
  rfl

end Steps

def FileCall.EndsWithin (limit : Nat) : FileCall → Prop
  | create => True
  | write data offset => offset.toNat + data.length ≤ limit
  | truncate length => length.toNat ≤ limit
  | read count offset => offset.toNat + count ≤ limit

instance (limit : Nat) : ∀ call : FileCall, Decidable (call.EndsWithin limit)
  | .create => inferInstanceAs (Decidable True)
  | .write data offset => inferInstanceAs (Decidable (offset.toNat + data.length ≤ limit))
  | .truncate length => inferInstanceAs (Decidable (length.toNat ≤ limit))
  | .read count offset => inferInstanceAs (Decidable (offset.toNat + count ≤ limit))

section Runs

variable {l : CachedDevice Host.Device} {m : CachedDevice Memory.Device} {calls : List FileCall}

def CachedDevice.afterOn {σ : Type} [RemoteDevice σ] (policy : Policy) (caller : Caller)
    (p : RemotePath) (m : CachedDevice σ) (calls : List FileCall) : CachedDevice σ :=
  m.after policy caller (calls.map (·.toCall p.text))

theorem CachedDevice.afterOn_concat {σ : Type} [RemoteDevice σ] (policy : Policy) (caller : Caller)
    (p : RemotePath)
    (m : CachedDevice σ) (calls : List FileCall) (call : FileCall) :
    m.afterOn policy caller p (calls ++ [call]) =
      (((call.toCall p.text).programOfText policy caller).run
        (m.afterOn policy caller p calls)).2 := by
  rw [afterOn, List.map_append, List.map_singleton, after_concat]
  rfl

theorem Twins.after (h : Twins p l m) (ha : ∀ earlier call, earlier ++ [call] <+: calls →
      Agree policy caller p (l.afterOn policy caller p earlier)
      (m.afterOn policy caller p earlier) call) :
    Twins p (l.afterOn policy caller p calls) (m.afterOn policy caller p calls) := by
  induction calls using List.reverseRecOn with
  | nil => exact h
  | append_singleton calls call ih =>
    rw [CachedDevice.afterOn_concat, CachedDevice.afterOn_concat]
    refine (ih fun earlier c hp ↦ ha earlier c (hp.trans (List.prefix_append _ _))).next ?_
    exact ha calls call (List.prefix_refl _)

/-- Whatever calls are made on one path in a directory, over a served directory and over a
device in memory that have the same there: all are answered alike and leave the same at the
path, if and only if none departs. -/
theorem services_agree_iff (policy : Policy) (caller : Caller) (h : Twins p l m)
    (calls : List FileCall) :
    (∀ earlier call, earlier ++ [call] <+: calls →
        Agree policy caller p (l.afterOn policy caller p earlier)
          (m.afterOn policy caller p earlier) call) ↔
      ∀ earlier call, earlier ++ [call] <+: calls →
      ¬Departs (m.afterOn policy caller p earlier).device p call := by
  constructor
  · intro hagree earlier call hcall
    have htwins : Twins p (l.afterOn policy caller p earlier) (m.afterOn policy caller p earlier) :=
      h.after fun sooner c hc ↦ hagree sooner c (hc.trans ((List.prefix_append _ _).trans hcall))
    exact (agree_iff htwins).1 (hagree earlier call hcall)
  · intro hdeparts earlier call hcall
    -- Calls made sooner agree, which makes twins of what they leave.
    induction hn : earlier.length using Nat.strong_induction_on generalizing earlier call with
    | _ n ih =>
      have htwins : Twins p (l.afterOn policy caller p earlier)
          (m.afterOn policy caller p earlier) := by
        refine h.after fun sooner c hc ↦ ?_
        have hlength := hc.length_le
        rw [List.length_append, List.length_singleton] at hlength
        exact ih sooner.length (by omega) sooner c
          (hc.trans ((List.prefix_append _ _).trans hcall)) rfl
      exact (agree_iff htwins).2 (hdeparts earlier call hcall)

section Examples

def writer : Caller := ⟨1000, 100, 42⟩

def servedFile : CachedDevice Host.Device := ⟨Host.Device.oneFile, .empty⟩

def heldFile : CachedDevice Memory.Device :=
  ⟨{ Memory.Device.empty Memory.Device.defaultCapacity with
    tree := (Memory.Device.empty 0).tree.insertFile Host.Device.fileName [1] }, .empty⟩

theorem twins_oneFile : Twins Host.Device.fileName servedFile heldFile := by
  refine ⟨Host.Device.sound_oneFile, Host.Device.plain_oneFile, fun _ ↦ rfl, ?_, ?_, ?_⟩
  · decide +kernel
  · decide +kernel
  · decide +kernel

def gapCalls : List FileCall := [.write [7] 2, .read 4 0]

theorem services_agree_iff_gapCalls : Twins Host.Device.fileName servedFile heldFile ∧
    Agree .standard writer Host.Device.fileName
      (servedFile.afterOn .standard writer Host.Device.fileName [.write [7] 2])
      (heldFile.afterOn .standard writer Host.Device.fileName [.write [7] 2]) (.read 4 0) := by
  refine ⟨twins_oneFile, (services_agree_iff .standard writer twins_oneFile gapCalls).2 ?_
    [.write [7] 2] (.read 4 0)
    (List.prefix_refl _)⟩
  intro earlier call hcall hdeparts
  obtain ⟨rest, hrest⟩ := hcall
  obtain ⟨bytes, -, hd⟩ := hdeparts ⟨by decide +kernel, by decide +kernel⟩
  cases earlier with
  | nil =>
    obtain ⟨rfl, -⟩ := List.cons.inj hrest
    have hroom : heldFile.device.tree.requireRoom heldFile.device.capacity Host.Device.fileName 3 =
        .ok () := by
      decide +kernel
    cases hd with
    | noRoomToWrite hr => cases hroom.symm.trans hr
    | writeTooFar ho => exact absurd ho (by decide)
  | cons first earlier =>
    obtain ⟨-, hrest⟩ := List.cons.inj hrest
    cases earlier with
    | nil =>
      obtain ⟨rfl, -⟩ := List.cons.inj hrest
      cases hd with
      | readTooFar ho => exact absurd ho (by decide)
    | cons second earlier => simp at hrest

/-- Nothing is written at position 4 of one byte: in memory three zeros come to follow it. -/
theorem content_of_emptyWrite :
    ¬∀ (p : RemotePath) (l : CachedDevice Host.Device) (m : CachedDevice Memory.Device)
    (calls : List FileCall), Twins p l m →
    (∀ call ∈ calls, call.EndsWithin (min m.device.capacity.toNat (offsetLimit - 1))) →
    (l.afterOn .standard writer p calls).device.found p =
      (m.afterOn .standard writer p calls).device.found p := by
  intro h
  have hsame := h Host.Device.fileName servedFile heldFile [.write [] 4] twins_oneFile
    (by decide +kernel)
  revert hsame
  decide +kernel

end Examples

end Runs

end RemoteMount
