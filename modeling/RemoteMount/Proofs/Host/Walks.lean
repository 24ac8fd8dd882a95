import RemoteMount.Host.FileStore

namespace RemoteMount.Host.FileStore

variable {fs fs' : FileStore} {create : Bool} {chain chain' : List NodeId}
    {names names' rest : List RawName}
variable {name : RawName} {node : NodeId} {links : Nat} {target : Bytes} {e : Errno}

def Climbs (fs : FileStore) (chain : List NodeId) : Prop := ∀ id ∈ chain, fs.isDirectory id = true

theorem climbs_top (h : fs.isDirectory top = true) : fs.Climbs [top] :=
  List.forall_mem_singleton.2 h

theorem Climbs.up (h : fs.Climbs chain) : fs.Climbs (up chain) := by
  match chain with
  | [] => exact h
  | [_] => exact h
  | _ :: _ :: _ => exact fun id hid ↦ h id (List.mem_cons_of_mem _ hid)

theorem Climbs.here (h : fs.Climbs chain) (ht : fs.isDirectory top = true) :
    fs.isDirectory (here chain) = true := by
  cases chain with
  | nil => exact ht
  | cons id chain => exact h id List.mem_cons_self

theorem isDirectory_iff :
    fs.isDirectory node = true ↔ ∃ entries, fs.nodes.get? node = some (.directory entries) := by
  unfold isDirectory
  split <;> simp_all

section Advance

/-- Where names lead that a last one follows: to a directory in which it is looked up, nowhere,
or to a link from whose target the rest goes on. Without the last one the walk ends in the same
directory. -/
inductive Approach (fs : FileStore) (chain : List NodeId) (names : List RawName) : Prop
  | arrived (chain' : List NodeId) (hc : fs.Climbs chain → fs.Climbs chain')
      (hs : fs.advance false chain names = .arrived (.directory chain') ∨
        ∃ c n id, fs.advance false chain names = .arrived (.entry c n (some id)) ∧ chain' = id :: c)
      (h : ∀ create name, name ≠ RawName.nothing →
        fs.advance create chain (names ++ [name]) = fs.advance create chain' [name])
  | failed (e : Errno) (h : ∀ create name, name ≠ RawName.nothing →
    fs.advance create chain (names ++ [name]) = .failed e)
  | atLink (chain' : List NodeId) (target : Bytes) (rest : List RawName) (hc : fs.Climbs chain →
    fs.Climbs chain')
      (hs : fs.advance false chain names = .atLink chain' target rest)
      (h : ∀ create name, name ≠ RawName.nothing →
        fs.advance create chain (names ++ [name]) = .atLink chain' target (rest ++ [name]))

theorem Approach.of_step (hc : fs.Climbs chain → fs.Climbs chain')
    (hs : fs.advance false chain (name :: names) = fs.advance false chain' names)
    (h : ∀ create n, n ≠ RawName.nothing →
      fs.advance create chain (name :: names ++ [n]) = fs.advance create chain' (names ++ [n]))
    (ha : fs.Approach chain' names) : fs.Approach chain (name :: names) := by
  cases ha with
  | arrived c hc' hs' h' =>
    exact .arrived c (hc' ∘ hc) (by rwa [hs]) fun create n hn ↦
      (h create n hn).trans (h' create n hn)
  | failed e h' => exact .failed e fun create n hn ↦ (h create n hn).trans (h' create n hn)
  | atLink c target rest hc' hs' h' =>
    exact .atLink c target rest (hc' ∘ hc) (hs.trans hs') fun create n hn ↦
      (h create n hn).trans (h' create n hn)

/-- A name that is looked up, unlike a dot, two of them, or nothing. -/
def Proper (name : RawName) : Prop :=
  name ≠ RawName.dot ∧ name ≠ RawName.nothing ∧ name ≠ RawName.dotdot

theorem skipped_or_dotdot_or_proper (name : RawName) :
    (name = RawName.dot ∨ name = RawName.nothing) ∨ name = RawName.dotdot ∨ Proper name := by
  by_cases hskip : name = RawName.dot ∨ name = RawName.nothing
  · exact .inl hskip
  by_cases hup : name = RawName.dotdot
  · exact .inr (.inl hup)
  · exact .inr (.inr ⟨fun he ↦ hskip (.inl he), fun he ↦ hskip (.inr he), hup⟩)

theorem advance_skipped (h : name = RawName.dot ∨ name = RawName.nothing) :
    fs.advance create chain (name :: names) = fs.advance create chain names := by
      rw [advance, if_pos h]

theorem advance_dotdot :
    fs.advance create chain (RawName.dotdot :: names) = fs.advance create (up chain) names := by
  rw [advance, if_neg (by decide), if_pos rfl]

theorem advance_made (h : Proper name) (hm : create = true ∧ names = [RawName.nothing]) :
    fs.advance create chain (name :: names) = .failed Errno.isdir := by
  rw [advance, if_neg (not_or.2 ⟨h.1, h.2.1⟩), if_neg h.2.2, if_pos hm]

theorem advance_proper (h : Proper name) (hm : ¬(create = true ∧ names = [RawName.nothing])) :
    fs.advance create chain (name :: names) =
      match fs.child chain name with
      | .error e => .failed e
      | .ok none => if names = [] then .arrived (.entry chain name none) else .failed Errno.noent
      | .ok (some id) =>
        match fs.nodes.get? id with
        | some (.symlink target) => .atLink chain target names
        | some (.directory _) =>
          if names = [] then .arrived (.entry chain name (some id))
            else fs.advance create (id :: chain) names
        | _ =>
          if names = [] then .arrived (.entry chain name (some id)) else .failed Errno.notdir := by
  rw [advance, if_neg (not_or.2 ⟨h.1, h.2.1⟩), if_neg h.2.2]
  exact if_neg hm

theorem advance_proper_concat (fs : FileStore) (chain : List NodeId) (names : List RawName)
    (h : Proper name) (create : Bool) {last : RawName} (hl : last ≠ RawName.nothing) :
    fs.advance create chain (name :: names ++ [last]) =
      match fs.child chain name with
      | .error e => .failed e
      | .ok none => .failed Errno.noent
      | .ok (some id) =>
        match fs.nodes.get? id with
        | some (.symlink target) => .atLink chain target (names ++ [last])
        | some (.directory _) => fs.advance create (id :: chain) (names ++ [last])
        | _ => .failed Errno.notdir := by
  have hmade : ¬(create = true ∧ names ++ [last] = [RawName.nothing]) := by
    rintro ⟨-, he⟩
    rw [List.append_eq_singleton_iff] at he
    rcases he with ⟨-, hn⟩ | ⟨-, hn⟩
    · exact hl (List.singleton_inj.1 hn)
    · cases hn
  rw [List.cons_append, advance_proper h hmade]
  simp only [List.append_eq_nil_iff, List.cons_ne_self, and_false, if_false]

theorem approach (fs : FileStore) (chain : List NodeId) (names : List RawName) :
    fs.Approach chain names := by
  induction names generalizing chain with
  | nil => exact .arrived chain id (.inl rfl) fun _ _ _ ↦ rfl
  | cons name names ih =>
    rcases skipped_or_dotdot_or_proper name with hskip | rfl | hproper
    · exact .of_step id (advance_skipped hskip) (fun _ _ _ ↦ advance_skipped hskip) (ih chain)
    · exact .of_step Climbs.up advance_dotdot (fun _ _ _ ↦ advance_dotdot) (ih (up chain))
    have hwithout : fs.advance false chain (name :: names) = _ :=
      advance_proper hproper fun hf ↦ nomatch hf.1
    have hwalk := fun create last ↦ @advance_proper_concat name fs chain names hproper create last
    cases hchild : fs.child chain name with
    | error e => exact .failed e fun create n hn ↦ by rw [hwalk create n hn, hchild]
    | ok found =>
      cases found with
      | none => exact .failed Errno.noent fun create n hn ↦ by rw [hwalk create n hn, hchild]
      | some id =>
        simp only [hchild] at hwithout hwalk
        cases hnode : fs.nodes.get? id with
        | none => exact .failed Errno.notdir fun create n hn ↦ by rw [hwalk create n hn, hnode]
        | some node =>
          simp only [hnode] at hwithout hwalk
          cases node with
          | file content => exact .failed Errno.notdir hwalk
          | symlink target => exact .atLink chain target names (fun h ↦ h) hwithout hwalk
          | directory entries =>
            have hclimbs : fs.Climbs chain → fs.Climbs (id :: chain) :=
              fun h ↦ List.forall_mem_cons.2 ⟨isDirectory_iff.2 ⟨entries, hnode⟩, h⟩
            by_cases hlast : names = []
            · rw [if_pos hlast] at hwithout
              subst hlast
              exact .arrived (id :: chain) hclimbs (.inr ⟨chain, name, id, hwithout, rfl⟩) hwalk
            · rw [if_neg hlast] at hwithout
              exact .of_step hclimbs hwithout hwalk (ih (id :: chain))

end Advance

section Resolve

theorem resolveFrom_congr (h : fs.advance create chain names = fs.advance create chain' names') :
    fs.resolveFrom create links chain names = fs.resolveFrom create links chain' names' := by
  cases links <;> rw [resolveFrom, resolveFrom, h]

theorem resolveFrom_of_arrived {place : Place} (h : fs.advance create chain names = .arrived place)
    (links : Nat) :
    fs.resolveFrom create links chain names = .ok place := by
  cases links <;> rw [resolveFrom, h]

theorem resolveFrom_of_failed (h : fs.advance create chain names = .failed e) (links : Nat) :
    fs.resolveFrom create links chain names = .error e := by
  cases links <;> rw [resolveFrom, h]

theorem resolveFrom_of_atLink (h : fs.advance create chain names = .atLink chain' target rest)
    (links : Nat) :
    fs.resolveFrom create (links + 1) chain names =
      fs.resolveFrom create links (if target.head? = some 47 then [top] else chain')
        (RawName.ofPath target ++ rest) := by
  rw [resolveFrom, h]

/-- The links on the way are the same for every last name. -/
theorem resolveFrom_approach {chain : List NodeId} (ht : fs.isDirectory top = true)
    (hc : fs.Climbs chain) (links : Nat) (names : List RawName) :
    (∃ chain' links', fs.Climbs chain' ∧
      (fs.resolveFrom false links chain names = .ok (.directory chain') ∨
        ∃ c n id, fs.resolveFrom false links chain names = .ok (.entry c n (some id)) ∧
        chain' = id :: c) ∧
      ∀ create name, name ≠ RawName.nothing →
        fs.resolveFrom create links chain (names ++ [name]) =
          fs.resolveFrom create links' chain' [name]) ∨
    ∃ e, ∀ create name, name ≠ RawName.nothing →
    fs.resolveFrom create links chain (names ++ [name]) = .error e := by
  cases fs.approach chain names with
  | arrived chain' hc' hs h =>
    refine .inl ⟨chain', links, hc' hc, ?_,
      fun create name hn ↦ resolveFrom_congr (h create name hn)⟩
    rcases hs with hs | ⟨c, n, id, hs, rfl⟩
    · exact .inl (resolveFrom_of_arrived hs links)
    · exact .inr ⟨c, n, id, resolveFrom_of_arrived hs links, rfl⟩
  | failed e h =>
    exact .inr ⟨e, fun create name hn ↦ resolveFrom_of_failed (h create name hn) links⟩
  | atLink chain' target rest hc' hs h =>
    cases links with
    | zero => exact .inr ⟨Errno.loop, fun create name hn ↦ by rw [resolveFrom, h create name hn]⟩
    | succ links =>
      have hfrom : fs.Climbs (if target.head? = some 47 then [top] else chain') := by
        split
        · exact climbs_top ht
        · exact hc' hc
      have hrest := resolveFrom_approach ht hfrom links (RawName.ofPath target ++ rest)
      rw [← resolveFrom_of_atLink hs links] at hrest
      have hlast : ∀ create name, name ≠ RawName.nothing →
          fs.resolveFrom create (links + 1) chain (names ++ [name]) =
          fs.resolveFrom create links (if target.head? = some 47 then [top] else chain')
            (RawName.ofPath target ++ rest ++ [name]) := fun create name hn ↦ by
        rw [resolveFrom_of_atLink (h create name hn), List.append_assoc]
      rcases hrest with ⟨c, links', hc'', hs', h'⟩ | ⟨e, h'⟩
      · exact .inl ⟨c, links', hc'', hs',
          fun create name hn ↦ (hlast create name hn).trans (h' create name hn)⟩
      · exact .inr ⟨e, fun create name hn ↦ (hlast create name hn).trans (h' create name hn)⟩

/-- The names lead to the first directory of the chain, and what they lead to with one more name
is looked up there, with so many links left to follow. -/
structure Enters (fs : FileStore) (names : List RawName) (chain : List NodeId)
    (links : Nat) : Prop where
  climbs : fs.Climbs chain
  stat : fs.stat names = .ok (here chain)
  parentOf : ∀ name, fs.parentOf (names ++ [name]) = .ok (chain, name)
  resolve : ∀ create name, name ≠ RawName.nothing →
    fs.resolve create (names ++ [name]) = fs.resolveFrom create links chain [name]

theorem enters_or_fails (ht : fs.isDirectory top = true) (names : List RawName) :
    (∃ chain links, fs.Enters names chain links) ∨ ∃ e, ∀ name,
      fs.parentOf (names ++ [name]) = .error e ∧
      (name ≠ RawName.nothing → ∀ create, fs.resolve create (names ++ [name]) = .error e) := by
  have hdot : RawName.dot ≠ RawName.nothing := by decide
  rcases resolveFrom_approach ht (climbs_top ht) linkLimit names with
    ⟨chain, links, hc, hs, h⟩ | ⟨e, h⟩
  · have hparent : fs.resolve false (names ++ [RawName.dot]) = .ok (.directory chain) :=
      (h false RawName.dot hdot).trans
        (resolveFrom_of_arrived (by rw [advance_skipped (.inl rfl), advance]) links)
    refine .inl ⟨chain, links, hc, ?_, fun name ↦ ?_, h⟩
    · rcases hs with hs | ⟨c, n, id, hs, rfl⟩
      · rw [stat, resolve, hs]
        rfl
      · rw [stat, resolve, hs]
        rfl
    · rw [FileStore.parentOf, List.dropLast_concat, hparent, List.getLastD_concat]
      rfl
  · refine .inr ⟨e, fun name ↦ ⟨?_, fun hn create ↦ h create name hn⟩⟩
    rw [FileStore.parentOf, List.dropLast_concat,
      show fs.resolve false _ = _ from h false RawName.dot hdot]
    rfl

section Last

theorem resolveFrom_of_refused (hn : Proper name) (h : fs.child chain name = .error e) :
    fs.resolveFrom create links chain [name] = .error e :=
  resolveFrom_of_failed (by rw [advance_proper hn (by simp), h]) links

theorem resolveFrom_of_free (hn : Proper name) (h : fs.child chain name = .ok none) :
    fs.resolveFrom create links chain [name] = .ok (.entry chain name none) :=
  resolveFrom_of_arrived (by rw [advance_proper hn (by simp), h]; rfl) links

end Last

end Resolve

section Extension

/-- What is found in the one store is found in the other: it has all of the links and
directories, and all names. -/
structure Extends (fs fs' : FileStore) : Prop where
  symlink : ∀ id target, fs.nodes.get? id = some (.symlink target) →
    fs'.nodes.get? id = some (.symlink target)
  directory : ∀ id, fs.isDirectory id = true → fs'.isDirectory id = true
  entries : ∀ dir name id, (fs.entries dir).get? name = some id →
    (fs'.entries dir).get? name = some id

/-- A walk that ends in a directory or at a link has found all names on its way. -/
def Firm : Progress → Prop
  | .arrived (.directory _) | .atLink .. => True
  | .arrived (.entry ..) | .failed _ => False

theorem Extends.child (h : Extends fs fs') (hc : fs.child chain name = .ok (some node)) :
    fs'.child chain name = .ok (some node) := by
  unfold FileStore.child at hc ⊢
  split
  · rwa [if_pos ‹_›] at hc
  rw [if_neg ‹_›] at hc
  split
  · rwa [if_pos ‹_›] at hc
  rw [if_neg ‹_›] at hc
  split
  · rwa [if_pos ‹_›] at hc
  rw [if_neg ‹_›] at hc
  rw [h.entries _ _ _ (Except.ok.inj hc)]

theorem Extends.advance (h : Extends fs fs') (hp : Firm (fs.advance create chain names)) :
    fs'.advance create chain names = fs.advance create chain names := by
  induction names generalizing chain with
  | nil => rfl
  | cons name names ih =>
    rcases skipped_or_dotdot_or_proper name with hskip | rfl | hproper
    · rw [advance_skipped hskip] at hp ⊢
      rw [advance_skipped hskip, ih hp]
    · rw [advance_dotdot] at hp ⊢
      rw [advance_dotdot, ih hp]
    by_cases hmade : create = true ∧ names = [RawName.nothing]
    · rw [advance_made hproper hmade] at hp
      exact hp.elim
    rw [advance_proper hproper hmade] at hp ⊢
    rw [advance_proper hproper hmade]
    cases hc : fs.child chain name with
    | error e =>
      rw [hc] at hp
      exact hp.elim
    | ok found =>
      cases found with
      | none =>
        rw [hc] at hp
        dsimp only at hp
        split at hp <;> exact hp.elim
      | some id =>
        rw [h.child hc]
        simp only [hc] at hp ⊢
        -- Only a directory or a link makes a walk firm, whether the name is the last one or not.
        have hlast : ∀ {p q : Progress}, ¬Firm p → ¬Firm q →
            ¬Firm (if names = [] then p else q) := by
          intro p q hp hq
          split
          · exact hp
          · exact hq
        cases hnode : fs.nodes.get? id with
        | none =>
          rw [hnode] at hp
          exact absurd hp (hlast not_false not_false)
        | some node =>
          rw [hnode] at hp
          cases node with
          | file content => exact absurd hp (hlast not_false not_false)
          | symlink target => rw [h.symlink id target hnode]
          | directory entries =>
            obtain ⟨entries', hnode'⟩ := isDirectory_iff.1
              (h.directory id (isDirectory_iff.2 ⟨entries, hnode⟩))
            rw [hnode']
            dsimp only at hp ⊢
            split
            · rfl
            · rename_i hmore
              rw [if_neg hmore] at hp
              exact ih hp

theorem Extends.resolveFrom {links : Nat} {chain : List NodeId} {names : List RawName}
    (h : Extends fs fs') (hr : fs.resolveFrom create links chain names = .ok (.directory chain')) :
    fs'.resolveFrom create links chain names = .ok (.directory chain') := by
  cases hp : fs.advance create chain names with
  | failed e =>
    rw [resolveFrom_of_failed hp] at hr
    cases hr
  | arrived place =>
    rw [resolveFrom_of_arrived hp] at hr
    cases hr
    have hsame : fs'.advance create chain names = fs.advance create chain names :=
      h.advance (by rw [hp]; trivial)
    exact resolveFrom_of_arrived (hsame.trans hp) links
  | atLink c target rest =>
    have hsame : fs'.advance create chain names = fs.advance create chain names :=
      h.advance (by rw [hp]; trivial)
    cases links with
    | zero =>
      rw [FileStore.resolveFrom, hp] at hr
      cases hr
    | succ links =>
      rw [resolveFrom_of_atLink hp] at hr
      rw [resolveFrom_of_atLink (hsame.trans hp)]
      exact h.resolveFrom hr

theorem Extends.parentOf {x : List NodeId × RawName} (h : Extends fs fs')
    (hp : fs.parentOf names = .ok x) :
    fs'.parentOf names = .ok x := by
  unfold FileStore.parentOf at hp ⊢
  cases hr : fs.resolve false (names.dropLast ++ [RawName.dot]) with
  | error e =>
    rw [hr] at hp
    cases hp
  | ok place =>
    cases place with
    | directory c =>
      rw [show fs'.resolve false _ = _ from h.resolveFrom hr, ← hr]
      exact hp
    | entry c n id =>
      rw [hr] at hp
      cases hp

end Extension

end RemoteMount.Host.FileStore
