import RemoteMount.Text.Quoted

namespace RemoteMount

def IsSegment (s : String) : Prop :=
  s ≠ "" ∧ s ≠ "." ∧ s ≠ ".." ∧ '/' ∉ s.toList ∧ '\x00' ∉ s.toList

instance (s : String) : Decidable (IsSegment s) := by unfold IsSegment; infer_instance

structure Segment where
  name : String
  valid : IsSegment name
deriving DecidableEq

inductive PathFault
  | notAbsolute
  | containsNul
  | emptySegment
  | relativeSegment
  | notSingleSegment
deriving DecidableEq, Repr

def PathFault.reason : PathFault → String
  | notAbsolute => "path must be absolute"
  | containsNul => "path contains a NUL byte"
  | emptySegment => "empty path segment"
  | relativeSegment => "relative path segment"
  | notSingleSegment => "not a single path segment"

structure InvalidPath where
  text : String
  fault : PathFault
deriving DecidableEq, Repr

def InvalidPath.message (e : InvalidPath) : String :=
  "invalid path " ++ Text.quote e.text ++ ": " ++ e.fault.reason

def splitSlashes : List Char → List (List Char)
  | [] => [[]]
  | c :: r =>
    if c = '/' then [] :: splitSlashes r
    else match splitSlashes r with
      | [] => [[c]]
      | s :: t => (c :: s) :: t

namespace Segment

def ofString (s : String) : Except PathFault Segment :=
  if h : IsSegment s then .ok ⟨s, h⟩
  else if '/' ∈ s.toList then .error .notSingleSegment
  else if '\x00' ∈ s.toList then .error .containsNul
  else if s = "" then .error .emptySegment
  else .error .relativeSegment

def ofPieces : List (List Char) → Except PathFault (List Segment)
  | [] => .ok []
  | p :: rest => do
    let s ← ofString (String.ofList p)
    let t ← ofPieces rest
    return s :: t

end Segment

/-- The root is the path without segments. -/
structure RemotePath where
  segments : List Segment
deriving DecidableEq

namespace RemotePath

def root : RemotePath := ⟨[]⟩

def isRoot (p : RemotePath) : Bool := p.segments.isEmpty

def components (p : RemotePath) : List String := p.segments.map Segment.name

def text (p : RemotePath) : String :=
  if p.segments = [] then "/" else String.join (p.components.map ("/" ++ ·))

instance : ToString RemotePath := ⟨text⟩

def depth (p : RemotePath) : Nat := p.segments.length

def parent (p : RemotePath) : RemotePath := ⟨p.segments.dropLast⟩

def name? (p : RemotePath) : Option String := p.segments.getLast?.map Segment.name

def child (p : RemotePath) (s : Segment) : RemotePath := ⟨p.segments ++ [s]⟩

def storageCard : RemotePath := ⟨[⟨"fs", by decide⟩, ⟨"microsd", by decide⟩]⟩

/-- Reads an absolute path. Of several faults the first of these counts: no leading slash, a NUL
character anywhere, the first segment that is empty or relative. -/
def parse (s : String) : Except InvalidPath RemotePath :=
  match s.toList with
  | '/' :: rest =>
    if '\x00' ∈ rest then .error ⟨s, .containsNul⟩
    else if rest = [] then .ok root
    else match Segment.ofPieces (splitSlashes rest) with
      | .ok segments => .ok ⟨segments⟩
      | .error fault => .error ⟨s, fault⟩
  | _ => .error ⟨s, .notAbsolute⟩

def childText (p : RemotePath) (name : String) : String :=
  (if p.isRoot then "" else p.text) ++ "/" ++ name

/-- The child with the given name. A name that is empty or has a slash is quoted alone in the
error, any other name with the path it would have had. -/
def join (p : RemotePath) (name : String) : Except InvalidPath RemotePath :=
  if name = "" ∨ '/' ∈ name.toList then .error ⟨name, .notSingleSegment⟩
  else match Segment.ofString name with
    | .ok s => .ok (p.child s)
    | .error fault => .error ⟨p.childText name, fault⟩

def within (p dir : RemotePath) : Bool := dir.segments.isPrefixOf p.segments

def rebase (p source target : RemotePath) : Option RemotePath :=
  if p.within source then some ⟨target.segments ++ p.segments.drop source.depth⟩ else none

def order (p q : RemotePath) : Ordering := compare p.text q.text

end RemotePath

theorem splitSlashes_eq_singleton {s : List Char} (h : '/' ∉ s) : splitSlashes s = [s] := by
  induction s with
  | nil => rfl
  | cons c r ih =>
    rw [List.mem_cons, not_or] at h
    rw [splitSlashes, if_neg (Ne.symm h.1), ih h.2]

theorem splitSlashes_append {s : List Char} (h : '/' ∉ s) (r : List Char) :
    splitSlashes (s ++ '/' :: r) = s :: splitSlashes r := by
  induction s with
  | nil => simp [splitSlashes]
  | cons c t ih =>
    rw [List.mem_cons, not_or] at h
    rw [List.cons_append, splitSlashes, if_neg (Ne.symm h.1), ih h.2]

theorem splitSlashes_ne_nil (s : List Char) : splitSlashes s ≠ [] := by
  induction s with
  | nil => simp [splitSlashes]
  | cons c r ih =>
    rw [splitSlashes]
    split
    · simp
    · split <;> simp

theorem flatMap_splitSlashes (s : List Char) : (splitSlashes s).flatMap ('/' :: ·) = '/' :: s := by
  induction s with
  | nil => rfl
  | cons c r ih =>
    rw [splitSlashes]
    split
    · rename_i h
      rw [List.flatMap_cons, ih, h]
      rfl
    · cases hs : splitSlashes r with
      | nil => exact absurd hs (splitSlashes_ne_nil r)
      | cons t ts => simpa [hs] using ih

namespace Segment

theorem ofString_name (s : Segment) : ofString s.name = .ok s := by
  simp [ofString, s.valid]

theorem name_of_ofString {n : String} {s : Segment} (h : ofString n = .ok s) : s.name = n := by
  unfold ofString at h
  split at h
  · cases h; rfl
  · split at h
    · cases h
    · split at h
      · cases h
      · split at h <;> cases h

theorem ofPieces_map (l : List Segment) : ofPieces (l.map (·.name.toList)) = .ok l := by
  induction l with
  | nil => rfl
  | cons s l ih =>
    simp only [List.map_cons, ofPieces, String.ofList_toList, ofString_name, ih]
    rfl

theorem map_of_ofPieces {ps : List (List Char)} {l : List Segment} (h : ofPieces ps = .ok l) :
    l.map (·.name.toList) = ps := by
  induction ps generalizing l with
  | nil => cases h; rfl
  | cons p ps ih =>
    rw [ofPieces] at h
    cases hp : ofString (String.ofList p) with
    | error e => rw [hp] at h; cases h
    | ok s =>
      cases ht : ofPieces ps with
      | error e => rw [hp, ht] at h; cases h
      | ok t =>
        rw [hp, ht] at h
        cases h
        rw [List.map_cons, ih ht, name_of_ofString hp, String.toList_ofList]

end Segment

namespace RemotePath

theorem toList_text_cons (s : Segment) (l : List Segment) :
    (text ⟨s :: l⟩).toList = (s :: l).flatMap ('/' :: ·.name.toList) := by
  simp [text, components, String.toList_join, List.flatMap_map, String.toList_append]

theorem splitSlashes_flatMap (s : Segment) (l : List Segment) :
    splitSlashes (s.name.toList ++ l.flatMap ('/' :: ·.name.toList)) =
      (s :: l).map (·.name.toList) := by
  induction l generalizing s with
  | nil => simpa using splitSlashes_eq_singleton s.valid.2.2.2.1
  | cons t l ih =>
    rw [List.flatMap_cons, List.cons_append, splitSlashes_append s.valid.2.2.2.1, ih]
    rfl

theorem parse_text (p : RemotePath) : parse p.text = .ok p := by
  obtain ⟨_ | ⟨s, l⟩⟩ := p
  · simp [parse, text, root]
  · have hn : '\x00' ∉ s.name.toList ++ l.flatMap ('/' :: ·.name.toList) := by
      simp only [List.mem_append, List.mem_flatMap, List.mem_cons, not_or, not_exists, not_and]
      exact ⟨s.valid.2.2.2.2, fun t _ ↦ ⟨by decide, t.valid.2.2.2.2⟩⟩
    have he : s.name.toList ++ l.flatMap ('/' :: ·.name.toList) ≠ [] := by
      simp only [ne_eq, List.append_eq_nil_iff, not_and]
      exact fun h ↦ absurd (String.toList_injective h) s.valid.1
    rw [parse, toList_text_cons]
    simp only [List.flatMap_cons, List.cons_append, if_neg hn, if_neg he, splitSlashes_flatMap,
      Segment.ofPieces_map]

theorem text_of_parse {s : String} {p : RemotePath} (h : parse s = .ok p) : p.text = s := by
  unfold parse at h
  split at h
  · rename_i rest hs
    apply String.toList_injective
    rw [hs]
    split at h
    · cases h
    · split at h
      · rename_i hr
        cases h
        rw [hr]
        rfl
      · split at h
        · rename_i l hl
          cases h
          have hm := Segment.map_of_ofPieces hl
          cases l with
          | nil => exact absurd hm.symm (splitSlashes_ne_nil rest)
          | cons t l =>
            rw [toList_text_cons, ← flatMap_splitSlashes, ← hm, List.flatMap_map]
        · cases h
  · cases h

end RemotePath

end RemoteMount
