import RemoteMount.Proofs.Paths
import RemoteMount.Proofs.PathTexts
import RemoteMount.Proofs.Utf8

namespace RemoteMount

namespace RemotePath

open Segment

def bytes (p : RemotePath) : List UInt8 := Text.encode p.text

section Texts

theorem toList_text (p : RemotePath) :
    p.text.toList = PathText.write '/' (p.components.map String.toList) := by
  obtain ⟨_ | ⟨s, l⟩⟩ := p
  · simp [text, PathText.write, components]
  · rw [toList_text_cons, PathText.write_of_ne_nil '/' (by simp [components])]
    simp [components, List.flatMap_map]

theorem names_toList (p : RemotePath) : PathText.Names '/' (p.components.map String.toList) := by
  simp only [PathText.Names, components, List.map_map, List.mem_map]
  intro name h
  obtain ⟨s, -, rfl⟩ := h
  exact ⟨mt String.toList_eq_nil_iff.1 s.valid.1, s.valid.2.2.2.1⟩

theorem toList_childText (p : RemotePath) (n : String) :
    (p.childText n).toList = PathText.write '/' (p.components.map String.toList ++ [n.toList]) := by
  have hchild := PathText.child_write p.names_toList n.toList
  rw [PathText.child, ← toList_text] at hchild
  rw [← hchild, childText]
  by_cases h : p.components = []
  · have hroot : p = root := components_injective h
    simp [hroot, text, root, isRoot]
  · have hroot : p.isRoot = false := by
      rw [← Bool.not_eq_true, isRoot_iff]
      intro hp
      exact h (hp ▸ rfl)
    have hslash : p.text.toList ≠ ['/'] := by
      rw [toList_text]
      simpa [PathText.write_eq_root_iff p.names_toList] using h
    simp [hroot, hslash]

theorem splitSlashes_eq_pieces (l : List Char) : splitSlashes l = PathText.pieces '/' l := by
  induction l with
  | nil => rfl
  | cons c l ih =>
    rw [splitSlashes, PathText.pieces, ih]
    split
    · rfl
    · obtain ⟨piece, more, hpieces⟩ := List.exists_cons_of_ne_nil (PathText.pieces_ne_nil '/' l)
      rw [hpieces]
      rfl

theorem parse_of_names {names : List (List Char)} {s : String} (h : PathText.Names '/' names)
    (hne : names ≠ []) (hs : s.toList = PathText.write '/' names) : parse s =
      if '\x00' ∈ s.toList then .error ⟨s, .containsNul⟩
      else match ofPieces names with
        | .ok segments => .ok ⟨segments⟩
        | .error fault => .error ⟨s, fault⟩ := by
  obtain ⟨first, more, rfl⟩ := List.exists_cons_of_ne_nil hne
  rw [PathText.write_of_ne_nil '/' hne, List.flatMap_cons, List.cons_append] at hs
  have hfirst := h first List.mem_cons_self
  have hpieces : splitSlashes (first ++ more.flatMap ('/' :: ·)) = first :: more := by
    rw [splitSlashes_eq_pieces]
    exact PathText.pieces_append_flatMap hfirst.2 fun name hm ↦ h name (List.mem_cons_of_mem _ hm)
  have hrest : first ++ more.flatMap ('/' :: ·) ≠ [] := by simp [hfirst.1]
  have hnul (rest : List Char) : '\x00' ∈ '/' :: rest ↔ '\x00' ∈ rest := by simp
  by_cases hz : '\x00' ∈ first ++ more.flatMap ('/' :: ·)
  · simp only [parse, hs, hnul, if_pos hz]
  · cases hsegments : ofPieces (first :: more) with
    | error fault => simp only [parse, hs, hpieces, hnul, if_neg hz, if_neg hrest, hsegments]
    | ok segments => simp only [parse, hs, hpieces, hnul, if_neg hz, if_neg hrest, hsegments]

theorem ofPieces_append (l : List Segment) (n : String) :
    ofPieces (l.map (·.name.toList) ++ [n.toList]) = (ofString n).map fun s ↦ l ++ [s] := by
  induction l with
  | nil =>
    simp only [List.map_nil, List.nil_append, ofPieces, String.ofList_toList]
    cases ofString n <;> rfl
  | cons s l ih =>
    simp only [List.map_cons, List.cons_append, ofPieces, ih, String.ofList_toList, ofString_name]
    cases ofString n <;> rfl

/-- A single name is joined to a path by reading the text the child would have. -/
theorem join_eq_parse (p : RemotePath) (n : String) : p.join n =
    if n = "" ∨ '/' ∈ n.toList then .error ⟨n, .notSingleSegment⟩ else parse (p.childText n) := by
  unfold join
  split
  · rfl
  rename_i h
  rw [not_or] at h
  have hnames : PathText.Names '/' (p.components.map String.toList ++ [n.toList]) := by
    intro name hm
    rcases List.mem_append.1 hm with hm | hm
    · exact p.names_toList name hm
    · rw [List.mem_singleton.1 hm]
      exact ⟨mt String.toList_eq_nil_iff.1 h.1, h.2⟩
  have hnul : '\x00' ∈ (p.childText n).toList ↔ '\x00' ∈ n.toList := by
    have hp : ∀ s ∈ p.segments, '\x00' ∈ s.name.toList → '\x00' ∈ n.toList :=
      fun s _ hs ↦ absurd hs s.valid.2.2.2.2
    rw [toList_childText, PathText.write_of_ne_nil '/' (by simp)]
    simpa [components] using hp
  have hpieces : ofPieces (p.components.map String.toList ++ [n.toList]) = (ofString n).map fun s ↦
      p.segments ++ [s] := by
    rw [components, List.map_map]
    exact ofPieces_append p.segments n
  simp only [parse_of_names hnames (by simp) (p.toList_childText n), hnul, hpieces]
  by_cases hz : '\x00' ∈ n.toList
  · have hfault : ofString n = .error .containsNul := by simp [ofString, IsSegment, h, hz]
    rw [if_pos hz, hfault]
  · rw [if_neg hz]
    cases ofString n <;> rfl

end Texts

section Bytes

theorem encode_of_names {s : String} {names : List String}
    (h : s.toList = PathText.write '/' (names.map String.toList)) :
    Text.encode s = PathText.write slashByte (names.map Text.encode) := by
  have hslash : String.utf8EncodeChar '/' = [slashByte] := rfl
  have hencode : List.flatMap String.utf8EncodeChar ∘ String.toList = Text.encode :=
    funext fun s ↦ (Text.encode_eq s).symm
  rw [Text.encode_eq, h, PathText.flatMap_write hslash, List.map_map, hencode]

theorem bytes_eq_write (p : RemotePath) :
    p.bytes = PathText.write slashByte (p.components.map Text.encode) :=
  encode_of_names p.toList_text

theorem names_encode (p : RemotePath) :
    PathText.Names slashByte (p.components.map Text.encode) := by
  intro name h
  obtain ⟨name', hname, rfl⟩ := List.mem_map.1 h
  obtain ⟨s, -, rfl⟩ := List.mem_map.1 hname
  refine ⟨fun hnil ↦ s.valid.1 (Text.encode_injective (hnil.trans (Text.encode_eq "").symm)), ?_⟩
  exact mt (Text.ascii_mem_encode_iff (show '/'.toNat < 128 by decide) s.name).1 s.valid.2.2.2.1

theorem components_bytes (p : RemotePath) :
    PathText.components slashByte p.bytes = p.components.map Text.encode := by
  rw [bytes_eq_write, PathText.components_write p.names_encode]

theorem depth_bytes (p : RemotePath) : PathText.depth slashByte p.bytes = p.depth := by
  rw [PathText.depth, components_bytes, List.length_map, components, List.length_map, depth]

theorem parent_bytes (p : RemotePath) : PathText.parent slashByte p.bytes = p.parent.bytes := by
  rw [bytes_eq_write, PathText.parent_write p.names_encode, ← List.map_dropLast,
    ← components_parent, ← bytes_eq_write]

theorem name?_bytes (p : RemotePath) :
    PathText.name? slashByte p.bytes = p.name?.map Text.encode := by
  rw [bytes_eq_write, PathText.name?_write p.names_encode, List.getLast?_map, ← name?_eq_getLast?]

theorem child_bytes (p : RemotePath) (n : String) :
    PathText.child slashByte p.bytes (Text.encode n) = Text.encode (p.childText n) := by
  have hnames : (p.childText n).toList =
      PathText.write '/' ((p.components ++ [n]).map String.toList) := by
    rw [toList_childText, List.map_append]
    rfl
  rw [bytes_eq_write, PathText.child_write p.names_encode, encode_of_names hnames, List.map_append]
  rfl

theorem within_bytes (p q : RemotePath) :
    PathText.within slashByte p.bytes q.bytes = p.within q := by
  rw [bytes_eq_write, bytes_eq_write, PathText.within_write p.names_encode q.names_encode,
    Bool.eq_iff_iff, List.isPrefixOf_iff_prefix, ← components_prefix_iff]
  exact List.prefix_map_iff_of_injective fun _ _ ↦ Text.encode_injective

theorem rebase_bytes (p q r : RemotePath) :
    PathText.rebase slashByte p.bytes q.bytes r.bytes = (p.rebase q r).map bytes := by
  rw [bytes_eq_write, bytes_eq_write, bytes_eq_write,
    PathText.rebase_write p.names_encode q.names_encode _ r.names_encode]
  have hwithin : (q.components.map Text.encode).isPrefixOf (p.components.map Text.encode) =
      p.within q := by
    rw [← within_bytes, bytes_eq_write, bytes_eq_write,
      PathText.within_write p.names_encode q.names_encode]
  rw [hwithin, rebase]
  split
  · simp [bytes_eq_write, components, depth, List.map_drop]
  · rfl

end Bytes

/-- A path is the list of its names. Each operation on the bytes of paths is one on their lists
of names. -/
theorem operations_on_names (p q r : RemotePath) (n : String) :
    (∀ s, parse s = .ok p ↔ s = p.text) ∧
    (PathText.components slashByte p.bytes = p.components.map Text.encode ∧
      (p.components = q.components ↔ p = q)) ∧
    (PathText.parent slashByte p.bytes = p.parent.bytes ∧
      p.parent.components = p.components.dropLast ∧
      root.parent = root) ∧
    (PathText.name? slashByte p.bytes = p.name?.map Text.encode ∧ p.name? = p.components.getLast? ∧
      (p.name? = none ↔ p = root)) ∧
    (p.join n = (if n = "" ∨ '/' ∈ n.toList then .error ⟨n, .notSingleSegment⟩
      else parse (p.childText n)) ∧
      PathText.child slashByte p.bytes (Text.encode n) = Text.encode (p.childText n) ∧
      ((∃ m, p.join n = .ok m) ↔ n ≠ "" ∧ '/' ∉ n.toList ∧ '\x00' ∉ n.toList ∧ n ≠ "." ∧ n ≠ "..") ∧
      ∀ m, p.join n = .ok m → m.components = p.components ++ [n]) ∧
    (PathText.within slashByte p.bytes q.bytes = p.within q ∧
      (p.within q = true ↔ q.components <+: p.components)) ∧
    (PathText.depth slashByte p.bytes = p.depth ∧ p.depth = p.components.length) ∧
    (PathText.rebase slashByte p.bytes q.bytes r.bytes = (p.rebase q r).map bytes ∧
      (∀ m, p.rebase q r = some m ↔ ∃ t, p.components = q.components ++ t ∧
        m.components = r.components ++ t) ∧
      (p.rebase q r = none ↔ ¬∃ t, p.components = q.components ++ t) ∧
      ∀ m, p.rebase q r = some m → m.rebase r q = some p) := by
  have hparse (s : String) : parse s = .ok p ↔ s = p.text := by
    constructor
    · intro h
      exact (text_of_parse h).symm
    · intro h
      rw [h, parse_text]
  have hjoin : (∃ m, p.join n = .ok m) ↔ n ≠ "" ∧ '/' ∉ n.toList ∧ '\x00' ∉ n.toList ∧ n ≠ "." ∧
      n ≠ ".." := by
    rw [exists_join_iff, IsSegment]
    tauto
  have hnone : p.rebase q r = none ↔ ¬∃ t, p.components = q.components ++ t := by
    have hbelow : (∃ t, p.components = q.components ++ t) ↔ p.within q = true := by
      rw [← components_prefix_iff]
      exact exists_congr fun t ↦ eq_comm
    rw [hbelow, Bool.not_eq_true, rebase_eq_none_iff]
  refine ⟨hparse, ⟨p.components_bytes, components_injective.eq_iff⟩,
    ⟨p.parent_bytes, p.components_parent, parent_root⟩,
    ⟨p.name?_bytes, p.name?_eq_getLast?, name?_eq_none_iff⟩,
    ⟨p.join_eq_parse n, p.child_bytes n, hjoin, fun m h ↦ (join_eq_ok_iff_components.1 h).2⟩,
    ⟨within_bytes p q, components_prefix_iff.symm⟩, ⟨p.depth_bytes, (List.length_map _).symm⟩,
      rebase_bytes p q r,
    fun m ↦ rebase_eq_some_iff_components, hnone, fun m ↦ rebase_symm⟩

end RemotePath

end RemoteMount
