import RemoteMount.CommandLine.Settings
import RemoteMount.Proofs.PolicyRules

namespace RemoteMount

theorem RemotePath.text_of_parse_error {s : String} {e : InvalidPath} (h : parse s = .error e) :
    e.text = s := by
  unfold parse at h
  split at h
  · split at h
    · cases h
      rfl
    · split at h
      · cases h
      · split at h
        · cases h
        · cases h
          rfl
  · cases h
    rfl

namespace Policy

open RemotePath

variable {paths : List RemotePath} {region : RemotePath} {r : PolicyRule}

theorem mem_history_writable : r ∈ history .standard (paths.map .writable) ↔
    r = ⟨.root, .readOnly⟩ ∨ ∃ region ∈ storageCard :: paths, r = ⟨region, .readWrite⟩ := by
  simp only [history, Base.rules, List.mem_append, List.mem_cons, List.not_mem_nil, or_false,
    List.map_map,
    List.mem_map, Function.comp_apply, Addition.toRule, exists_eq_or_imp, or_assoc, eq_comm]

theorem lastRule?_writable (h : region ∈ paths) :
    lastRule? (history .standard (paths.map .writable)) region = some ⟨region, .readWrite⟩ := by
  have hmem : (⟨region, .readWrite⟩ : PolicyRule) ∈
      (paths.map Addition.writable).map Addition.toRule := by
    rw [List.map_map]
    exact List.mem_map.2 ⟨region, h, rfl⟩
  obtain ⟨s, hs⟩ := exists_lastRule? hmem
  have hadded := mem_of_lastRule? hs
  have hregion := region_of_lastRule? hs
  rw [List.map_map] at hadded
  obtain ⟨q, -, rfl⟩ := List.mem_map.1 hadded
  obtain rfl : q = region := hregion
  rw [history, lastRule?_append, hs]
  rfl

/-- With further writable regions, the rule that decides is read-write within one of them and
read-only elsewhere. -/
theorem permissions_writable (paths : List RemotePath) (p : RemotePath) :
    ((build .standard (paths.map .writable)).ruleFor p).permissions = .readWrite ∧
        (∃ region ∈ storageCard :: paths, p.within region = true) ∨
      ((build .standard (paths.map .writable)).ruleFor p).permissions = .readOnly ∧
        ¬∃ region ∈ storageCard :: paths, p.within region = true := by
  obtain ⟨hlast, hwithin, hmax⟩ := (holds_build .standard (paths.map .writable)).ruleFor_spec p
  generalize (build .standard (paths.map .writable)).ruleFor p = r at hlast hwithin hmax ⊢
  rcases mem_history_writable.1 (mem_of_lastRule? hlast) with rfl | ⟨region, hregion, rfl⟩
  · refine .inr ⟨rfl, ?_⟩
    rintro ⟨region, hregion, hp⟩
    have hrule : (⟨region, .readWrite⟩ : PolicyRule) ∈ history .standard (paths.map .writable) :=
      mem_history_writable.2 (.inr ⟨region, hregion, rfl⟩)
    obtain ⟨s, hs⟩ := exists_lastRule? hrule
    have hdepth := hmax region hp (by rw [hs]; exact nofun)
    -- Where the rule of the root decides, no region around the path is deeper, and the root itself
    -- is not writable.
    obtain rfl : region = .root :=
      segments_injective (List.length_eq_zero_iff.1 (Nat.le_zero.1 hdepth))
    rcases List.mem_cons.1 hregion with hcard | hgiven
    · exact absurd hcard (by decide)
    · rw [lastRule?_writable hgiven] at hlast
      exact absurd hlast (by decide)
  · exact .inl ⟨rfl, region, hregion, hwithin⟩

end Policy

namespace CommandLine

theorem InvalidRegion.messages_of_parse_error {s : String} {cause : InvalidPath}
    (h : RemotePath.parse s = .error cause) :
    messages ⟨cause⟩ = ["Invalid --rw-prefix " ++ Text.quote s, cause.message] := by
  obtain rfl := RemotePath.text_of_parse_error h
  rfl

namespace Arguments

open InvalidRegion (messages_of_parse_error)
open RemotePath (text)

variable {c : Mount.Config} {l : List String} {s : String} {e : InvalidRegion} {cause : InvalidPath}

theorem addRegions_texts (c : Mount.Config) (paths : List RemotePath) :
    addRegions c (paths.map text) =
    .ok { c with policy := (paths.map Policy.Addition.writable).foldl Policy.add c.policy } := by
  induction paths generalizing c with
  | nil => rfl
  | cons p paths ih =>
    rw [List.map_cons, addRegions, RemotePath.parse_text]
    exact ih (c.addWritable p)

theorem addRegions_fault (c : Mount.Config) (paths : List RemotePath) (after : List String)
    (h : RemotePath.parse s = .error cause) :
    addRegions c (paths.map text ++ s :: after) = .error ⟨cause⟩ := by
  induction paths generalizing c with
  | nil => simp only [List.map_nil, List.nil_append, addRegions, h]
  | cons p paths ih =>
    rw [List.map_cons, List.cons_append, addRegions, RemotePath.parse_text]
    exact ih (c.addWritable p)

theorem texts_or_fault (l : List String) : (∃ paths : List RemotePath, l = paths.map text) ∨
    ∃ (paths : List RemotePath) (s : String) (after : List String) (cause : InvalidPath),
      l = paths.map text ++ s :: after ∧ RemotePath.parse s = .error cause := by
  induction l with
  | nil => exact .inl ⟨[], rfl⟩
  | cons s l ih =>
    cases hs : RemotePath.parse s with
    | error cause => exact .inr ⟨[], s, l, cause, rfl, hs⟩
    | ok p =>
      obtain rfl := RemotePath.text_of_parse hs
      rcases ih with ⟨paths, rfl⟩ | ⟨paths, t, after, cause, rfl, ht⟩
      · exact .inl ⟨p :: paths, rfl⟩
      · exact .inr ⟨p :: paths, t, after, cause, rfl, ht⟩

theorem forall_parse_iff :
    (∀ s ∈ l, ∃ p, RemotePath.parse s = .ok p) ↔ ∃ paths : List RemotePath, l = paths.map text := by
  constructor
  · intro h
    rcases texts_or_fault l with hpaths | ⟨paths, s, after, cause, rfl, hs⟩
    · exact hpaths
    · obtain ⟨p, hp⟩ := h s (by simp)
      rw [hs] at hp
      cases hp
  · rintro ⟨paths, rfl⟩ s hs
    obtain ⟨p, -, rfl⟩ := List.mem_map.1 hs
    exact ⟨p, RemotePath.parse_text p⟩

/-- The first text that is no path makes the command line fail, and nothing else does. -/
theorem addRegions_eq_error_iff :
    addRegions c l = .error e ↔ ∃ before s after cause, l = before ++ s :: after ∧
    (∀ t ∈ before, ∃ q, RemotePath.parse t = .ok q) ∧ RemotePath.parse s = .error cause ∧
    e = ⟨cause⟩ := by
  constructor
  · intro h
    rcases texts_or_fault l with ⟨paths, rfl⟩ | ⟨paths, s, after, cause, rfl, hs⟩
    · rw [addRegions_texts] at h
      cases h
    · rw [addRegions_fault c paths after hs] at h
      exact ⟨_, s, after, cause, rfl, forall_parse_iff.2 ⟨paths, rfl⟩, hs,
        (Except.error.inj h).symm⟩
  · rintro ⟨before, s, after, cause, rfl, hbefore, hs, rfl⟩
    obtain ⟨paths, rfl⟩ := forall_parse_iff.1 hbefore
    exact addRegions_fault c paths after hs

theorem exists_addRegions_iff :
    (∃ c', addRegions c l = .ok c') ↔ ∀ s ∈ l, ∃ p, RemotePath.parse s = .ok p := by
  rw [forall_parse_iff]
  constructor
  · rintro ⟨c', h⟩
    rcases texts_or_fault l with hpaths | ⟨paths, s, after, cause, rfl, hs⟩
    · exact hpaths
    · rw [addRegions_fault c paths after hs] at h
      cases h
  · rintro ⟨paths, rfl⟩
    exact ⟨_, addRegions_texts c paths⟩

theorem policy_of_mountConfig {a : Arguments} (h : a.mountConfig = .ok c) :
    ∃ paths : List RemotePath, a.rwPrefixes = paths.map text ∧
      c.policy = Policy.build .standard (paths.map .writable) := by
  obtain ⟨paths, hpaths⟩ := forall_parse_iff.1 (exists_addRegions_iff.1 ⟨c, h⟩)
  rw [mountConfig, hpaths, addRegions_texts] at h
  exact ⟨paths, hpaths, (congrArg Mount.Config.policy (Except.ok.inj h)).symm⟩

/-- A command line is accepted if every region on it is a path, and else fails with what is
wrong with the first that is none. It makes writable what lies on the storage card or in one of
its regions, and leaves the rest read-only. -/
theorem regions_writable (a : Arguments) :
    ((∃ c, a.mountConfig = .ok c) ↔ ∀ s ∈ a.rwPrefixes, ∃ q, RemotePath.parse s = .ok q) ∧
    (∀ e, a.mountConfig = .error e ↔ ∃ before s after cause, a.rwPrefixes = before ++ s :: after ∧
      (∀ t ∈ before, ∃ q, RemotePath.parse t = .ok q) ∧ RemotePath.parse s = .error cause ∧
      e = ⟨cause⟩ ∧
      e.messages = ["Invalid --rw-prefix " ++ Text.quote s, cause.message]) ∧
    ∀ c, a.mountConfig = .ok c → ∀ p kind,
      (c.policy.permission p kind = Permissions.readWrite.ofKind kind ↔
        p.within .storageCard = true ∨
        ∃ s ∈ a.rwPrefixes, ∃ q, RemotePath.parse s = .ok q ∧ p.within q = true) ∧
      (c.policy.permission p kind = Permissions.readOnly.ofKind kind ↔
        ¬(p.within .storageCard = true ∨
        ∃ s ∈ a.rwPrefixes, ∃ q, RemotePath.parse s = .ok q ∧ p.within q = true)) := by
  refine ⟨exists_addRegions_iff, fun e ↦ ?_, fun c hc p kind ↦ ?_⟩
  · rw [mountConfig, addRegions_eq_error_iff]
    constructor
    · rintro ⟨before, s, after, cause, hl, hbefore, hs, rfl⟩
      exact ⟨before, s, after, cause, hl, hbefore, hs, rfl, messages_of_parse_error hs⟩
    · rintro ⟨before, s, after, cause, hl, hbefore, hs, he, -⟩
      exact ⟨before, s, after, cause, hl, hbefore, hs, he⟩
  · obtain ⟨paths, hpaths, hpolicy⟩ := policy_of_mountConfig hc
    have hregions : (p.within .storageCard = true ∨ ∃ s ∈ a.rwPrefixes, ∃ q,
        RemotePath.parse s = .ok q ∧
        p.within q = true) ↔ ∃ region ∈ RemotePath.storageCard :: paths,
          p.within region = true := by
      simp [hpaths, RemotePath.parse_text]
    have hdistinct : Permissions.readWrite.ofKind kind ≠ Permissions.readOnly.ofKind kind := by
      cases kind <;> decide
    rw [hregions, Policy.permission, hpolicy]
    rcases Policy.permissions_writable paths p with ⟨hperm, hin⟩ | ⟨hperm, hout⟩
    · rw [hperm]
      exact ⟨iff_of_true rfl hin, iff_of_false hdistinct (not_not_intro hin)⟩
    · rw [hperm]
      exact ⟨iff_of_false hdistinct.symm hout, iff_of_true rfl hout⟩

def openedDevice : Arguments := { initial with rwPrefixes := ["/fs", "/", "/fs"] }

def relativeRegion : Arguments := { initial with rwPrefixes := ["/fs", "fs", ""] }

theorem regions_writable_openedDevice :
    (∃ c, openedDevice.mountConfig = .ok c ∧ c.policy.permission .root .directory = 0o755) ∧
    ∃ e, relativeRegion.mountConfig = .error e ∧
    e.messages.head? = some "Invalid --rw-prefix \"fs\"" := by
  obtain ⟨haccepted, -, hpermission⟩ := regions_writable openedDevice
  obtain ⟨-, hfails, -⟩ := regions_writable relativeRegion
  constructor
  · have hparse := forall_parse_iff.2
      ⟨[RemotePath.storageCard.parent, .root, RemotePath.storageCard.parent], rfl⟩
    obtain ⟨c, hc⟩ := haccepted.2 hparse
    exact ⟨c, hc, (hpermission c hc .root .directory).1.2
      (.inr ⟨"/", by simp [openedDevice], .root, rfl, rfl⟩)⟩
  · obtain ⟨cause, hcause⟩ : ∃ cause, RemotePath.parse "fs" = .error cause := ⟨_, rfl⟩
    have hbefore := forall_parse_iff.2 ⟨[RemotePath.storageCard.parent], rfl⟩
    have hmessages := messages_of_parse_error hcause
    refine ⟨⟨cause⟩, (hfails ⟨cause⟩).2 ⟨_, "fs", [""], cause, rfl, hbefore, hcause, rfl,
      hmessages⟩, ?_⟩
    rw [hmessages]
    exact congrArg some (by decide +kernel)

end Arguments

end CommandLine

end RemoteMount
