import Mathlib.Data.List.Iterate
import Mathlib.Data.List.Nodup
import RemoteMount.Policy
import RemoteMount.Proofs.Paths

namespace RemoteMount

namespace RemotePath

variable {α : Type} {p dir : RemotePath} {f : RemotePath → Option α} {a : α}

def upward (p : RemotePath) : List RemotePath := List.iterate parent p (p.depth + 1)

@[simp] theorem upward_root : root.upward = [root] := rfl

theorem upward_of_ne_root (h : p ≠ root) : p.upward = p :: p.parent.upward := by
  rw [upward, upward, depth_parent h, List.iterate]

/-- Going up from a path, the first directory for which there is something is the deepest
one. -/
theorem findSome?_upward (hd : p.within dir = true) (ha : f dir = some a)
    (hnone : ∀ q, p.within q = true → dir.depth < q.depth → f q = none) :
    p.upward.findSome? f = some a := by
  induction hn : p.depth generalizing p with
  | zero =>
    obtain rfl : p = root := segments_injective (List.length_eq_zero_iff.1 hn)
    obtain rfl := within_root_iff.1 hd
    simp [ha]
  | succ n ih =>
    have hne : p ≠ root := by
      rintro rfl
      cases hn
    have hdepth := depth_parent hne
    rw [upward_of_ne_root hne, List.findSome?_cons]
    by_cases he : p = dir
    · rw [he, ha]
    · rw [hnone p (within_self p) (depth_lt_of_within hd he)]
      apply ih (parent_within hd he) _ (by omega)
      intro q hq
      exact hnone q (within_of_parent_within hq)

end RemotePath

namespace Policy

open RemotePath

inductive Base
  | uniform (permissions : Permissions)
  | readOnly
  | standard

def Base.policy : Base → Policy
  | uniform permissions => .uniform permissions
  | readOnly => .readOnly
  | standard => .standard

def Base.rules : Base → List PolicyRule
  | uniform permissions => [⟨.root, permissions⟩]
  | readOnly => [⟨.root, .readOnly⟩]
  | standard => [⟨.root, .readOnly⟩, ⟨.storageCard, .readWrite⟩]

inductive Addition
  | rule (r : PolicyRule)
  | writable (region : RemotePath)

def Addition.toRule : Addition → PolicyRule
  | rule r => r
  | writable region => ⟨region, .readWrite⟩

def add (policy : Policy) : Addition → Policy
  | .rule r => policy.addRule r
  | .writable region => policy.addWritable region

def build (base : Base) (additions : List Addition) : Policy := additions.foldl add base.policy

def history (base : Base) (additions : List Addition) : List PolicyRule :=
  base.rules ++ additions.map Addition.toRule

def lastRule? (history : List PolicyRule) (region : RemotePath) : Option PolicyRule :=
  (history.filter (·.region = region)).getLast?

variable {policy : Policy} {base : Base} {additions additions' : List Addition}
    {hist hist' l l' : List PolicyRule}
variable {r s : PolicyRule} {p region : RemotePath}

section History

theorem lastRule?_append (hist hist' : List PolicyRule) (region : RemotePath) :
    lastRule? (hist ++ hist') region = (lastRule? hist' region).or (lastRule? hist region) := by
  rw [lastRule?, List.filter_append, List.getLast?_append]
  rfl

theorem lastRule?_singleton (r : PolicyRule) (region : RemotePath) :
    lastRule? [r] region = if r.region = region then some r else none := by
  by_cases h : r.region = region <;> simp [lastRule?, h]

theorem region_of_lastRule? (h : lastRule? hist region = some r) : r.region = region := by
  have hmem := List.mem_filter.1 (List.mem_of_getLast? h)
  simpa using hmem.2

theorem mem_of_lastRule? (h : lastRule? hist region = some r) : r ∈ hist :=
  (List.mem_filter.1 (List.mem_of_getLast? h)).1

theorem exists_lastRule? (h : r ∈ hist) : ∃ s, lastRule? hist r.region = some s := by
  apply Option.ne_none_iff_exists'.1
  rw [lastRule?, Ne, List.getLast?_eq_none_iff]
  exact List.ne_nil_of_mem (List.mem_filter.2 ⟨h, by simp⟩)

theorem filter_eq_of_perm (h : l.Perm l') (hn : (l.map PolicyRule.region).Nodup)
    (region : RemotePath) :
    l.filter (·.region = region) = l'.filter (·.region = region) := by
  have hperm := h.filter (·.region = region)
  have hregions : ((l.filter (·.region = region)).map PolicyRule.region).Nodup :=
    hn.sublist (List.filter_sublist.map _)
  have hall : ∀ r ∈ l.filter (·.region = region), r.region = region := by
    intro r hr
    simpa using (List.mem_filter.1 hr).2
  rcases hl : l.filter (·.region = region) with _ | ⟨r, _ | ⟨s, rest⟩⟩
  · rw [hl] at hperm
    rw [hl, hperm.nil_eq]
  · rw [hl] at hperm
    rw [hl, List.perm_singleton.1 hperm.symm]
  · -- Two rules that are left would have one region.
    rw [hl] at hregions hall
    have hr := hall r List.mem_cons_self
    have hs := hall s (by simp)
    simp [hr, hs] at hregions

end History

section Deepest

theorem deepest_eq_none_iff : deepest l = none ↔ l = [] := by
  cases l with
  | nil => simp [deepest]
  | cons r l =>
    rw [deepest]
    split
    · simp
    · split <;> simp

theorem deepest_spec (h : deepest l = some r) :
    r ∈ l ∧ ∀ s ∈ l, s.region.depth ≤ r.region.depth := by
  induction l generalizing r with
  | nil => cases h
  | cons s l ih =>
    rw [deepest] at h
    split at h
    · rename_i hnone
      obtain rfl := deepest_eq_none_iff.1 hnone
      obtain rfl := Option.some_inj.1 h
      simp
    · rename_i t ht
      obtain ⟨hmem, hmax⟩ := ih ht
      split at h
      · obtain rfl := Option.some_inj.1 h
        refine ⟨List.mem_cons_self, fun u hu ↦ ?_⟩
        rcases List.mem_cons.1 hu with rfl | hu
        · exact Nat.le_refl _
        · have hle := hmax u hu
          omega
      · obtain rfl := Option.some_inj.1 h
        refine ⟨List.mem_cons_of_mem _ hmem, fun u hu ↦ ?_⟩
        rcases List.mem_cons.1 hu with rfl | hu
        · omega
        · exact hmax u hu

end Deepest

/-- The rules of a policy are the last ones that were added for their regions, and the root has
one. -/
structure Holds (policy : Policy) (hist : List PolicyRule) : Prop where
  nodup : (policy.rules.map PolicyRule.region).Nodup
  mem_iff : ∀ r, r ∈ policy.rules ↔ lastRule? hist r.region = some r
  rooted : lastRule? hist .root ≠ none

theorem Holds.addRule (h : policy.Holds hist) (r : PolicyRule) :
    (policy.addRule r).Holds (hist ++ [r]) := by
  have hlast (region : RemotePath) : lastRule? (hist ++ [r]) region =
      if r.region = region then some r else lastRule? hist region := by
    rw [lastRule?_append, lastRule?_singleton]
    split <;> rfl
  refine ⟨?_, fun s ↦ ?_, ?_⟩
  · have hkept : ((policy.rules.filter (·.region ≠ r.region)).map PolicyRule.region).Nodup :=
      h.nodup.sublist (List.filter_sublist.map _)
    rw [Policy.addRule, List.map_append, List.nodup_append]
    refine ⟨hkept, by simp, fun region hregion other hother ↦ ?_⟩
    obtain ⟨s, hs, rfl⟩ := List.mem_map.1 hregion
    obtain rfl : other = r.region := by simpa using hother
    simpa using (List.mem_filter.1 hs).2
  · rw [Policy.addRule, hlast]
    simp only [List.mem_append, List.mem_filter, List.mem_singleton, h.mem_iff]
    by_cases hs : r.region = s.region
    · simp [hs, eq_comm]
    · have hne : s ≠ r := fun he ↦ hs (by rw [he])
      simp [hs, Ne.symm hs, hne]
  · rw [hlast]
    split
    · exact nofun
    · exact h.rooted

theorem Holds.add (h : policy.Holds hist) (a : Addition) :
    (policy.add a).Holds (hist ++ [a.toRule]) := by
  cases a with
  | rule r => exact h.addRule r
  | writable region => exact h.addRule ⟨region, .readWrite⟩

theorem holds_uniform (permissions : Permissions) :
    (uniform permissions).Holds [⟨.root, permissions⟩] := by
  refine ⟨by simp [uniform], fun r ↦ ?_, by simp [lastRule?]⟩
  rw [uniform, List.mem_singleton, lastRule?_singleton]
  constructor
  · rintro rfl
    rfl
  · intro h
    split at h
    · exact (Option.some_inj.1 h).symm
    · cases h

theorem holds_base (base : Base) : base.policy.Holds base.rules := by
  cases base with
  | uniform permissions => exact holds_uniform permissions
  | readOnly => exact holds_uniform .readOnly
  | standard => exact (holds_uniform .readOnly).addRule ⟨.storageCard, .readWrite⟩

theorem Holds.foldl (h : policy.Holds hist) (additions : List Addition) :
    (additions.foldl Policy.add policy).Holds (hist ++ additions.map Addition.toRule) := by
  induction additions generalizing policy hist with
  | nil => simpa using h
  | cons a additions ih =>
    rw [List.foldl_cons, List.map_cons, List.append_cons]
    exact ih (h.add a)

theorem holds_build (base : Base) (additions : List Addition) :
    (build base additions).Holds (history base additions) :=
  (holds_base base).foldl additions

section Deciding

theorem Holds.deepest_eq (h : policy.Holds hist) (p : RemotePath) :
    deepest (policy.rules.filter (p.within ·.region)) = some (policy.ruleFor p) := by
  obtain ⟨r, hr⟩ := Option.ne_none_iff_exists'.1 h.rooted
  have hregion := region_of_lastRule? hr
  have hmem : r ∈ policy.rules.filter (p.within ·.region) := by
    rw [List.mem_filter, h.mem_iff, hregion]
    exact ⟨hr, within_root p⟩
  have hne : deepest (policy.rules.filter (p.within ·.region)) ≠ none :=
    mt deepest_eq_none_iff.1 (List.ne_nil_of_mem hmem)
  obtain ⟨s, hs⟩ := Option.ne_none_iff_exists'.1 hne
  rw [ruleFor, hs, Option.getD_some]

/-- The rule that decides is one for the deepest region around the path. -/
theorem Holds.ruleFor_spec (h : policy.Holds hist) (p : RemotePath) :
    lastRule? hist (policy.ruleFor p).region = some (policy.ruleFor p) ∧
    p.within (policy.ruleFor p).region = true ∧
      ∀ region, p.within region = true → lastRule? hist region ≠ none →
        region.depth ≤ (policy.ruleFor p).region.depth := by
  obtain ⟨hmem, hmax⟩ := deepest_spec (h.deepest_eq p)
  obtain ⟨hrule, hwithin⟩ := List.mem_filter.1 hmem
  refine ⟨(h.mem_iff _).1 hrule, hwithin, fun region hregion hne ↦ ?_⟩
  obtain ⟨s, hs⟩ := Option.ne_none_iff_exists'.1 hne
  obtain rfl := region_of_lastRule? hs
  exact hmax s (List.mem_filter.2 ⟨(h.mem_iff s).2 hs, hregion⟩)

theorem Holds.findSome?_upward (h : policy.Holds hist)
    (hl : ∀ region, p.within region = true → lastRule? hist' region = lastRule? hist region) :
    p.upward.findSome? (lastRule? hist') = some (policy.ruleFor p) := by
  obtain ⟨hlast, hwithin, hmax⟩ := h.ruleFor_spec p
  rw [← hl _ hwithin] at hlast
  apply RemotePath.findSome?_upward hwithin hlast
  intro q hq hlt
  by_contra hne
  rw [hl q hq] at hne
  have hle := hmax q hq hne
  omega

theorem Holds.ruleFor_congr {policy' : Policy} (h : policy.Holds hist) (h' : policy'.Holds hist')
    (hl : ∀ region, p.within region = true → lastRule? hist' region = lastRule? hist region) :
    policy'.ruleFor p = policy.ruleFor p := by
  have hfound := h'.findSome?_upward (p := p) fun _ _ ↦ rfl
  rw [h.findSome?_upward hl] at hfound
  exact (Option.some_inj.1 hfound).symm

theorem Holds.ruleFor_add (h : policy.Holds hist) (a : Addition)
    (hp : p.within a.toRule.region = false) :
    (policy.add a).ruleFor p = policy.ruleFor p := by
  apply h.ruleFor_congr (h.add a)
  intro region hregion
  have hne : a.toRule.region ≠ region := by
    rintro rfl
    rw [hregion] at hp
    cases hp
  rw [lastRule?_append, lastRule?_singleton, if_neg hne, Option.none_or]

theorem lastRule?_history_congr
    (h : ∀ region, (additions'.map Addition.toRule).filter (·.region = region) =
    (additions.map Addition.toRule).filter (·.region = region)) (region : RemotePath) :
    lastRule? (history base additions') region = lastRule? (history base additions) region := by
  have hsame : lastRule? (additions'.map Addition.toRule) region =
      lastRule? (additions.map Addition.toRule) region :=
    congrArg List.getLast? (h region)
  rw [history, history, lastRule?_append, lastRule?_append, hsame]

end Deciding

/-- However a policy was built up, its rules are for distinct regions, one of them for the root,
and a path is decided by the rule that was added last for the nearest directory on the way up
that ever got one. Only among the rules of one region does the order count, and a further rule
makes a difference at and below its region alone. -/
theorem nearest_rule_decides (base : Base) (additions : List Addition) (p : RemotePath) :
    (((build base additions).rules.map PolicyRule.region).Nodup ∧
      (∃ r ∈ (build base additions).rules, r.region = .root) ∧
      deepest ((build base additions).rules.filter (p.within ·.region)) =
        some ((build base additions).ruleFor p)) ∧
    p.upward.findSome? (lastRule? (history base additions)) =
      some ((build base additions).ruleFor p) ∧
    (∀ additions', (∀ region, (additions'.map Addition.toRule).filter (·.region = region) =
        (additions.map Addition.toRule).filter (·.region = region)) →
      (build base additions').ruleFor p = (build base additions).ruleFor p) ∧
    (∀ additions', additions'.Perm additions → (additions'.map (·.toRule.region)).Nodup →
      (build base additions').ruleFor p = (build base additions).ruleFor p) ∧
    ∀ a kind, ((build base additions).add a).permission p kind ≠
      (build base additions).permission p kind →
      p.within a.toRule.region = true := by
  have hbuilt := holds_build base additions
  have hroot : ∃ r ∈ (build base additions).rules, r.region = .root := by
    obtain ⟨r, hr⟩ := Option.ne_none_iff_exists'.1 hbuilt.rooted
    have hregion := region_of_lastRule? hr
    exact ⟨r, (hbuilt.mem_iff r).2 (hregion ▸ hr), hregion⟩
  have hreordered : ∀ additions',
      (∀ region, (additions'.map Addition.toRule).filter (·.region = region) =
      (additions.map Addition.toRule).filter (·.region = region)) →
      (build base additions').ruleFor p = (build base additions).ruleFor p := by
    intro additions' h
    exact hbuilt.ruleFor_congr (holds_build base additions') fun region _ ↦
      lastRule?_history_congr h region
  refine ⟨⟨hbuilt.nodup, hroot, hbuilt.deepest_eq p⟩, hbuilt.findSome?_upward fun _ _ ↦ rfl,
    hreordered, ?_, ?_⟩
  · intro additions' hperm hn
    apply hreordered
    apply filter_eq_of_perm (hperm.map Addition.toRule)
    rwa [List.map_map]
  · intro a kind hchanged
    by_contra hout
    rw [Bool.not_eq_true] at hout
    rw [permission, permission, hbuilt.ruleFor_add a hout] at hchanged
    exact hchanged rfl

section Examples

def parameters : RemotePath := storageCard.child ⟨"params", by decide⟩

def reopenedParameters : List Addition :=
  [.rule ⟨parameters, ⟨0, 0⟩⟩, .writable .root, .rule ⟨parameters, .readOnly⟩]

def reopenedDevice : List Addition :=
  [.writable .root, .rule ⟨parameters, ⟨0, 0⟩⟩, .rule ⟨parameters, .readOnly⟩]

theorem nearest_rule_decides_reopenedParameters :
    parameters.upward.findSome? (lastRule? (history .standard reopenedParameters)) =
      some ⟨parameters, .readOnly⟩ ∧
    (build .standard reopenedDevice).ruleFor parameters = ⟨parameters, .readOnly⟩ ∧
    (build .standard (reopenedParameters.take 2)).ruleFor parameters =
      (build .standard (reopenedDevice.take 2)).ruleFor parameters ∧
    parameters.within parameters = true := by
  obtain ⟨-, hfound, hreordered, -, -⟩ :=
    nearest_rule_decides .standard reopenedParameters parameters
  obtain ⟨-, -, -, hpermuted, hchanged⟩ :=
    nearest_rule_decides .standard (reopenedDevice.take 2) parameters
  have hdecides : (build .standard reopenedParameters).ruleFor parameters =
      ⟨parameters, .readOnly⟩ := by
    decide +kernel
  rw [hdecides] at hfound hreordered
  refine ⟨hfound, hreordered reopenedDevice fun region ↦ ?_,
    hpermuted _ (.swap ..) (by decide +kernel), ?_⟩
  · by_cases hroot : RemotePath.root = region
    · subst hroot
      decide +kernel
    · simp [reopenedParameters, reopenedDevice, Addition.toRule, List.filter_cons, hroot]
  · exact hchanged (.rule ⟨parameters, .readOnly⟩) .file (by decide +kernel)

end Examples

end Policy

end RemoteMount
