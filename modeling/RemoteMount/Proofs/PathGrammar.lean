import RemoteMount.Proofs.WrittenPaths

namespace RemoteMount

/-- How a path comes about: it is read from a text, or made from other paths. -/
inductive PathTerm
  | read (s : String)
  | root
  | parent (t : PathTerm)
  | join (t : PathTerm) (name : String)
  | rebase (t source target : PathTerm)

namespace PathTerm

def path? : PathTerm → Option RemotePath
  | read s => (RemotePath.parse s).toOption
  | root => some .root
  | parent t => t.path?.map RemotePath.parent
  | join t name => do (← t.path?).join name |>.toOption
  | rebase t source target => do (← t.path?).rebase (← source.path?) (← target.path?)

def checked? (b : List UInt8) : Option (List UInt8) :=
  (Text.decode? b).bind fun s ↦ (RemotePath.parse s).toOption.map fun _ ↦ b

/-- The bytes of the path that is made. Only a text and a joined name are checked. -/
def bytes? : PathTerm → Option (List UInt8)
  | read s => checked? (Text.encode s)
  | root => some [slashByte]
  | parent t => t.bytes?.map (PathText.parent slashByte)
  | join t name => do
    let b ← t.bytes?
    if name = "" ∨ '/' ∈ name.toList then none
    else checked? (PathText.child slashByte b (Text.encode name))
  | rebase t source target =>
    do PathText.rebase slashByte (← t.bytes?) (← source.bytes?) (← target.bytes?)

end PathTerm

namespace RemotePath

variable {p : RemotePath} {s n : String} {names : List String}

section Grammar

theorem parse_eq_ok_iff : parse s = .ok p ↔ s = p.text := by
  constructor
  · intro h
    exact (text_of_parse h).symm
  · intro h
    rw [h, parse_text]

theorem isSegment_of_mem_components (h : n ∈ p.components) : IsSegment n := by
  obtain ⟨t, -, rfl⟩ := List.mem_map.1 h
  exact t.valid

theorem exists_components (h : ∀ n ∈ names, IsSegment n) : ∃ p :
    RemotePath, p.components = names := by
  refine ⟨⟨names.pmap Segment.mk h⟩, ?_⟩
  rw [components, List.map_pmap, List.pmap_eq_map, List.map_id']

theorem text_of_ne_nil (h : p.components ≠ []) :
    p.text = String.join (p.components.map ("/" ++ ·)) := by
  have hsegments : p.segments ≠ [] := fun hnil ↦ h (by rw [components, hnil, List.map_nil])
  rw [text, if_neg hsegments]

theorem mem_toList_join {c : Char} : c ∈ (String.join (names.map ("/" ++ ·))).toList ↔
    ∃ n ∈ names, c = '/' ∨ c ∈ n.toList := by
  simp [String.toList_join, String.toList_append]

theorem nul_not_mem_text (p : RemotePath) : '\x00' ∉ p.text.toList := by
  by_cases h : p.components = []
  · have hroot : p = root := components_injective h
    rw [hroot]
    decide
  · rw [text_of_ne_nil h, mem_toList_join]
    rintro ⟨n, hn, hslash | hnul⟩
    · exact absurd hslash (by decide)
    · exact (isSegment_of_mem_components hn).2.2.2.2 hnul

/-- A text is a path if it is a slash, or has a slash before each of its names. -/
theorem exists_parse_iff :
    (∃ p, parse s = .ok p) ↔ '\x00' ∉ s.toList ∧ (s = "/" ∨ ∃ names : List String, names ≠ [] ∧
    (∀ n ∈ names, n ≠ "" ∧ '/' ∉ n.toList ∧ n ≠ "." ∧ n ≠ "..") ∧
    s = String.join (names.map ("/" ++ ·))) := by
  constructor
  · intro h
    obtain ⟨p, hp⟩ := h
    obtain rfl := parse_eq_ok_iff.1 hp
    refine ⟨p.nul_not_mem_text, ?_⟩
    by_cases hnil : p.components = []
    · have hroot : p = root := components_injective hnil
      rw [hroot]
      exact .inl rfl
    · refine .inr ⟨p.components, hnil, fun n hn ↦ ?_, text_of_ne_nil hnil⟩
      obtain ⟨hempty, hdot, hdots, hslash, -⟩ := isSegment_of_mem_components hn
      exact ⟨hempty, hslash, hdot, hdots⟩
  · rintro ⟨hnul, rfl | ⟨names, hne, hnames, rfl⟩⟩
    · exact ⟨root, rfl⟩
    · have hvalid : ∀ n ∈ names, IsSegment n := by
        intro n hn
        obtain ⟨hempty, hslash, hdot, hdots⟩ := hnames n hn
        exact ⟨hempty, hdot, hdots, hslash, fun hz ↦ hnul (mem_toList_join.2 ⟨n, hn, .inr hz⟩)⟩
      obtain ⟨p, rfl⟩ := exists_components hvalid
      exact ⟨p, parse_eq_ok_iff.2 (text_of_ne_nil hne).symm⟩

end Grammar

section Making

theorem bytes_root : root.bytes = [slashByte] := by
  rw [bytes_eq_write]
  rfl

theorem checked?_encode (s : String) :
    PathTerm.checked? (Text.encode s) = (parse s).toOption.map bytes := by
  have hdecode : Text.decode? (Text.encode s) = some s := Text.decode?_eq_some_iff.2 rfl
  rw [PathTerm.checked?, hdecode, Option.bind_some]
  cases h : parse s with
  | error e => rfl
  | ok p =>
    obtain rfl := parse_eq_ok_iff.1 h
    rfl

/-- Cutting and joining bytes makes the path that the same steps on lists of names make. -/
theorem bytes?_eq_map_bytes (t : PathTerm) : t.bytes? = t.path?.map bytes := by
  induction t with
  | read s => exact checked?_encode s
  | root => exact congrArg some bytes_root.symm
  | parent t ih =>
    rw [PathTerm.bytes?, PathTerm.path?, ih, Option.map_map, Option.map_map]
    exact congrArg (t.path?.map ·) (funext parent_bytes)
  | join t name ih =>
    rw [PathTerm.bytes?, PathTerm.path?, ih]
    cases t.path? with
    | none => rfl
    | some p =>
      change (if name = "" ∨ '/' ∈ name.toList then none
        else PathTerm.checked? (PathText.child slashByte p.bytes (Text.encode name))) =
          (p.join name).toOption.map bytes
      rw [join_eq_parse, child_bytes, checked?_encode]
      split <;> rfl
  | rebase t source target ih ihs iht =>
    rw [PathTerm.bytes?, PathTerm.path?, ih, ihs, iht]
    cases t.path? with
    | none => rfl
    | some p =>
      cases source.path? with
      | none => rfl
      | some q =>
        cases target.path? with
        | none => rfl
        | some r => exact rebase_bytes p q r

end Making

/-- Reading takes a single slash, and slashes each with a name behind it, and nothing else; it
keeps the text as it is. What is made from paths, in however many steps, is stored as a text
that is read back as the path that was made. -/
theorem parse_reads_grammar (s : String) :
    ((∃ p, parse s = .ok p) ↔ '\x00' ∉ s.toList ∧ (s = "/" ∨ ∃ names : List String, names ≠ [] ∧
      (∀ n ∈ names, n ≠ "" ∧ '/' ∉ n.toList ∧ n ≠ "." ∧ n ≠ "..") ∧
      s = String.join (names.map ("/" ++ ·)))) ∧
    (∀ p, parse s = .ok p → p.text = s) ∧
    ∀ t : PathTerm, t.bytes? = t.path?.map bytes ∧
      ∀ b, t.bytes? = some b → ∃ stored p, Text.encode stored = b ∧ parse stored = .ok p ∧
      p.text = stored ∧
        t.path? = some p := by
  refine ⟨exists_parse_iff, fun p ↦ text_of_parse, fun t ↦ ⟨bytes?_eq_map_bytes t, fun b hb ↦ ?_⟩⟩
  rw [bytes?_eq_map_bytes, Option.map_eq_some_iff] at hb
  obtain ⟨p, hp, rfl⟩ := hb
  exact ⟨p.text, p, rfl, parse_text p, rfl, hp⟩

section Examples

def carriedLog : PathTerm :=
  .join (.rebase (.parent (.read "/né/1.ulg")) .root (.read "/fs/microsd")) "2.ulg"

theorem parse_reads_grammar_carriedLog :
    (∃ p, parse "/fs/microsd/né/2.ulg" = .ok p) ∧
    carriedLog.bytes? = some (Text.encode "/fs/microsd/né/2.ulg") ∧
    ∃ stored p, Text.encode stored = Text.encode "/fs/microsd/né/2.ulg" ∧ parse stored = .ok p ∧
    p.text = stored ∧
      carriedLog.path? = some p := by
  obtain ⟨hgrammar, -, hmade⟩ := parse_reads_grammar "/fs/microsd/né/2.ulg"
  have hnames :=
    hgrammar.2 ⟨by decide, .inr ⟨["fs", "microsd", "né", "2.ulg"], by decide, by decide, by decide⟩⟩
  have hbytes : carriedLog.bytes? = some (Text.encode "/fs/microsd/né/2.ulg") := by
    rw [(hmade carriedLog).1]
    decide +kernel
  exact ⟨hnames, hbytes, (hmade carriedLog).2 _ hbytes⟩

end Examples

end RemotePath

end RemoteMount
