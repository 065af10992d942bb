import RandomTables.Proofs.Program.Header
import RandomTables.Proofs.Program.Lines

namespace RandomTables.Grammar

/-- A span that covers header and rules goes from the hash to the end of the last of them. -/
theorem tableSpan_bounds (header : Span) (rules : List (Located Rule))
    (h : ∀ r ∈ rules, header.stop ≤ r.span.start) :
    (tableSpan header rules).start = header.start ∧
      (tableSpan header rules).stop = rulesStop header.stop rules := by
  have hheader := header.start_le_stop
  rcases rules.eq_nil_or_concat with rfl | ⟨before, r, rfl⟩
  · simp [tableSpan, rulesStop, Span.cover]
  · have hr := h r (by simp)
    have hspan := r.span.start_le_stop
    simp only [tableSpan, rulesStop, List.concat_eq_append, List.getLast?_concat, Option.map_some,
      Option.getD_some, Span.cover]
    omega

/-- A table reaches from its hash to its last rule, or to the end of its header. -/
theorem tableSpan_ends (hash : Token) (header tokens : List Token) (rules : List (Located Rule))
    (h : Lines tokens rules) (horder : InOrder (hash :: header ++ tokens)) :
    (tableSpan (extent (hash :: header)) rules).start = hash.span.start ∧
      (tableSpan (extent (hash :: header)) rules).stop =
        rulesStop (stopAfter hash.span.stop header) rules := by
  obtain ⟨hheader, htokens, hcross⟩ := List.pairwise_append.mp horder
  have hstart := extent_start hash header hheader
  have hstop := extent_stop hash header hheader
  have hafter : ∀ t ∈ tokens, (extent (hash :: header)).stop ≤ t.span.start := by
    intro t ht
    have hlast : header.getLastD hash ∈ hash :: header := List.getLastD_mem_cons
    rw [hstop, stopAfter_eq_last]
    exact hcross _ hlast t ht
  rw [← hstart, ← hstop]
  exact tableSpan_bounds _ _ (rules_after tokens rules h htokens _ hafter)

/-- The span that is read is the one that the grammar gives. -/
theorem spanTo_eq_ok_iff_tableSpan (hash : Token) (header tokens : List Token)
    (rules : List (Located Rule)) (h : Lines tokens rules)
    (horder : InOrder (hash :: header ++ tokens)) (s : Span) :
    spanTo hash (rulesStop (stopAfter hash.span.stop header) rules) = .ok s ↔
      s = tableSpan (extent (hash :: header)) rules := by
  obtain ⟨hstart, hstop⟩ := tableSpan_ends hash header tokens rules h horder
  rw [spanTo_eq_ok_iff, ← hstart, ← hstop]
  cases s
  cases tableSpan (extent (hash :: header)) rules
  simp

theorem isTable_cons (tokens after : List Token) (table : Located Table)
    (h : IsTable tokens after table) :
    ∃ hash taken, tokens = hash :: taken ∧ hash.kind = .hash := by
  cases h with
  | bare hheader =>
    obtain ⟨hash, name, flags, rfl, hhash, -⟩ := header_cons _ _ _ hheader
    exact ⟨hash, name :: flags, rfl, hhash⟩
  | lines hheader =>
    obtain ⟨hash, name, flags, rfl, hhash, -⟩ := header_cons _ _ _ hheader
    exact ⟨hash, _, rfl, hhash⟩

/-- A table that others come after has a line end, and is one whatever comes after it. -/
theorem isTable_of_after (first after others : List Token) (table : Located Table)
    (h : IsTable first after table) (hafter : after ≠ []) : IsTable first others table := by
  cases h with
  | bare => exact absurd rfl hafter
  | lines hheader hline hlines => exact .lines hheader hline hlines

/-- Both kinds of table are a header with line ends and rules after it, of which a bare one has
none. -/
theorem isTable_iff (tokens after : List Token) (table : Located Table)
    (hafter : HeadIn [.hash] after) :
    IsTable tokens after table ↔ ∃ header lines id exported rules,
      tokens = header ++ lines ∧ Header header id exported ∧ HeadIn [.newline] (lines ++ after) ∧
      Lines lines rules ∧ table = ⟨⟨id, exported, rules⟩, tableSpan (extent header) rules⟩ := by
  have hbare (header : Span) : tableSpan header [] = header := by simp [tableSpan, Span.cover]
  constructor
  · intro h
    cases h with
    | @bare _ id exported hheader =>
      exact ⟨tokens, [], id, exported, [], by simp, hheader, headIn_nil _, .nil, by rw [hbare]⟩
    | @lines header id exported lineEnd tokens rules _ hheader hline hlines =>
      exact ⟨header, lineEnd :: tokens, id, exported, rules, rfl, hheader, by simp [hline],
        .lineEnd hline hlines, rfl⟩
  · intro h
    obtain ⟨header, lines, id, exported, rules, rfl, hheader, hline, hlines, rfl⟩ := h
    -- What follows a header with no line of its own would be a line end and a hash at once.
    cases lines with
    | nil =>
      obtain rfl := lines_nil rules hlines
      rw [List.append_nil, hbare]
      cases after with
      | nil => exact .bare hheader
      | cons t after =>
        simp only [List.nil_append, headIn_cons, List.mem_singleton] at hline hafter
        rw [hline] at hafter
        cases hafter
    | cons t lines =>
      simp only [List.cons_append, headIn_cons, List.mem_singleton] at hline
      exact .lines hheader hline (lines_of_lineEnd t lines rules hline hlines)

/-- The parts of a table are read one after the other. -/
theorem readTable_sound (hash : Token) (tokens rest : List Token) (table : Located Table)
    (hhash : hash.kind = .hash) (hsound : Sound (hash :: tokens))
    (h : readTable hash tokens = .ok (table, rest)) :
    ∃ taken, tokens = taken ++ rest ∧ IsTable (hash :: taken) rest table ∧ HeadIn [.hash] rest := by
  simp only [readTable, bind_eq_ok_iff, pure_eq_ok_iff, readKind_eq_ok_iff, Prod.exists,
    Prod.mk.injEq] at h
  obtain ⟨name, _, ⟨rfl, hname⟩, exported, stop, after, hend, _, hline, rules, stop', rest',
    hrules, span, hspan, rfl, rfl⟩ := h
  obtain ⟨flags, rfl, hheader, rfl⟩ := readHeaderEnd_sound hash _ _ _ _ _ hhash hname hend
  have hsound' := (sound_of_append (hash :: name :: flags) after hsound).2
  obtain ⟨lines, rfl, hlines, rfl, hrest⟩ := readRules_sound _ _ _ _ _ hsound' hrules
  have horder : InOrder (hash :: (name :: flags) ++ lines) :=
    (sound_of_append (hash :: name :: flags ++ lines) rest' (by simpa using hsound)).1.inOrder
  rw [← stopAfter_cons hash.span.stop name flags,
    spanTo_eq_ok_iff_tableSpan hash (name :: flags) lines rules hlines horder] at hspan
  refine ⟨name :: flags ++ lines, by simp, ?_, hrest⟩
  rw [isTable_iff _ _ _ hrest, hspan]
  exact ⟨hash :: name :: flags, lines, _, _, rules, rfl, hheader,
    (checkLineEnd_eq_ok_iff _).mp hline, hlines, rfl⟩

/-- A table of the grammar is read whole, if the next one or the end comes behind it. -/
theorem readTable_complete (hash : Token) (taken rest : List Token) (table : Located Table)
    (h : IsTable (hash :: taken) rest table) (hsound : Sound (hash :: taken))
    (hrest : HeadIn [.hash] rest) :
    readTable hash (taken ++ rest) = .ok (table, rest) := by
  obtain ⟨header, lines, id, exported, rules, hsplit, hheader, hline, hlines, rfl⟩ :=
    (isTable_iff _ _ _ hrest).mp h
  obtain ⟨_, name, flags, rfl, -, hname, rfl⟩ := header_cons header id exported hheader
  cases hsplit
  have hlines' : Sound lines := (sound_of_append (hash :: name :: flags) lines hsound).2
  have hend := readHeaderEnd_complete hash name flags (lines ++ rest) _ _ hheader
    (headNot_of_headIn _ _ _ hline (by decide))
  have hspan := spanTo_eq_ok_iff_tableSpan hash (name :: flags) lines rules hlines hsound.inOrder
  simp only [readTable, bind_eq_ok_iff, pure_eq_ok_iff, readKind_eq_ok_iff, Prod.exists,
    Prod.mk.injEq]
  refine ⟨name, flags ++ (lines ++ rest), ⟨by simp, hname⟩, exported, _, _, hend, (),
    (checkLineEnd_eq_ok_iff _).mpr hline, rules, _, rest,
    readRules_complete _ _ _ _ hlines hlines' hrest, _, ?_, rfl, rfl⟩
  rw [stopAfter_cons] at hspan
  exact (hspan _).mpr rfl

theorem tables_head (tokens : List Token) (tables : List (Located Table))
    (h : Tables tokens tables) : HeadIn [.hash] tokens := by
  cases h with
  | nil => exact headIn_nil _
  | @cons first tokens table tables hfirst =>
    obtain ⟨hash, taken, rfl, hhash⟩ := isTable_cons first tokens table hfirst
    simp [hhash]

/-- No line ends stand where a hash is to come. -/
theorem lineEnds_eq_nil (lineEnds rest : List Token) (h : ∀ t ∈ lineEnds, t.kind = .newline)
    (hhead : HeadIn [.hash] (lineEnds ++ rest)) : lineEnds = [] := by
  cases lineEnds with
  | nil => rfl
  | cons t lineEnds =>
    have ht := h t List.mem_cons_self
    simp [ht] at hhead

/-- By induction on the tokens: line ends are passed over, and a table leaves fewer tokens. -/
theorem readTables_sound (tokens : List Token) (tables : List (Located Table))
    (hsound : Sound tokens) (h : readTables tokens = .ok tables) :
    ∃ lineEnds rest, tokens = lineEnds ++ rest ∧ (∀ t ∈ lineEnds, t.kind = .newline) ∧
      Tables rest tables := by
  fun_induction readTables tokens generalizing tables with
  | case1 =>
    cases h
    exact ⟨[], [], rfl, nofun, .nil⟩
  | case2 t tokens ht ih =>
    obtain ⟨lineEnds, rest, rfl, hlineEnds, hrest⟩ := ih _ (sound_of_cons _ _ hsound) h
    exact ⟨t :: lineEnds, rest, rfl, List.forall_mem_cons.mpr ⟨ht, hlineEnds⟩, hrest⟩
  | case3 => cases h
  | case4 hash tokens hhash table after htable hlt ih =>
    simp only [bind_eq_ok_iff, pure_eq_ok_iff] at h
    obtain ⟨tables', htail, rfl⟩ := h
    obtain ⟨taken, rfl, htaken, hafter⟩ := readTable_sound _ _ _ _ hhash hsound htable
    have hsound' := (sound_of_append (hash :: taken) after hsound).2
    obtain ⟨lineEnds, rest, rfl, hlineEnds, hrest⟩ := ih _ hsound' htail
    -- A table takes the line ends after it, so that none are left before the next.
    rw [lineEnds_eq_nil lineEnds rest hlineEnds hafter, List.nil_append] at htaken ⊢
    exact ⟨[], hash :: taken ++ rest, rfl, nofun, .cons htaken hrest⟩
  | case5 => cases h

/-- Tables that begin with a hash, as a chain of readers. -/
theorem readTables_hash (t : Token) (tokens : List Token) (ht : t.kind = .hash) :
    readTables (t :: tokens) = readTable t tokens >>= fun (table, rest) =>
      readTables rest >>= fun tables => pure (table :: tables) := by
  rw [readTables.eq_def]
  simp only [ht]
  split
  all_goals
    rename_i h
    rw [h]
    rfl

theorem readTables_complete (tokens : List Token) (tables : List (Located Table))
    (h : Tables tokens tables) (hsound : Sound tokens) : readTables tokens = .ok tables := by
  induction h with
  | nil => rw [readTables]
  | @cons first tokens table tables hfirst htail ih =>
    have hrest := tables_head tokens tables htail
    obtain ⟨hsound, hsound'⟩ := sound_of_append _ _ hsound
    obtain ⟨hash, taken, rfl, hhash⟩ := isTable_cons first tokens table hfirst
    have htable := readTable_complete hash taken tokens table hfirst hsound hrest
    rw [List.cons_append, readTables_hash _ _ hhash, bind_eq_ok_iff]
    exact ⟨_, htable, (bind_eq_ok_iff _ _ _).mpr ⟨_, ih hsound', rfl⟩⟩

/-- On sound tokens the reader and the grammar agree. -/
theorem readProgram_eq_ok_iff (tokens : List Token) (p : Program) (hsound : Sound tokens) :
    readProgram tokens = .ok p ↔ IsProgram tokens p := by
  constructor
  · intro h
    rw [readProgram, bind_eq_ok_iff] at h
    obtain ⟨tables, htables, h⟩ := h
    split at h
    · cases h
    · rename_i hne
      cases h
      obtain ⟨lineEnds, rest, rfl, hlineEnds, hrest⟩ := readTables_sound _ _ hsound htables
      exact .mk hlineEnds hrest (by simpa using hne)
  · intro h
    cases h with
    | @mk lineEnds tokens tables hlineEnds htables hne =>
      have hread : readTables (lineEnds ++ tokens) = .ok tables := by
        have htokens := (sound_of_append _ _ hsound).2
        -- The reader drops the line ends one by one.
        clear hsound
        induction lineEnds with
        | nil => exact readTables_complete tokens tables htables htokens
        | cons t lineEnds ih =>
          obtain ⟨ht, hlineEnds⟩ := List.forall_mem_cons.mp hlineEnds
          rw [List.cons_append, readTables.eq_def]
          simp only [ht]
          exact ih hlineEnds
      rw [readProgram, bind_eq_ok_iff]
      refine ⟨tables, hread, ?_⟩
      rw [if_neg (by simpa using hne)]
      rfl

end RandomTables.Grammar
