import Mathlib.Algebra.BigOperators.Group.Finset.Piecewise
import Mathlib.Algebra.Order.BigOperators.Group.List
import RandomTables.Proofs.Collection.Expansion
import RandomTables.Proofs.Collection.Sampling
import RandomTables.Proofs.Report.Columns
import RandomTables.Proofs.Selection
import RandomTables.Proofs.Text.Visible

/-! The report on a distribution accounts for every rule and for every sample. Its rows are the
texts of the rules, each once; what is generated from a table of plain text is always one of them,
so that no sample is left out of the counts; and in exact arithmetic the expected shares are what
the weights of the same text add up to. -/
namespace RandomTables
open Decimal Generation

/-- By induction from the last name, which comes in only if it is new. -/
theorem nodup_eraseDups (names : List String) : names.eraseDups.Nodup := by
  induction names using List.reverseRecOn with
  | nil => exact List.nodup_nil
  | append_singleton names name ih =>
    rw [eraseDups_concat]
    split
    · exact ih
    · rename_i hnew
      rw [← List.concat_eq_append]
      exact ih.concat fun hmem => hnew (List.mem_eraseDups.mp hmem)

/-- Where each name comes once, a directory is its names with their values. -/
theorem Directory.eq_map_find? {α : Type} (d : Directory α) (default : α) (h : d.names.Nodup) :
    d = d.names.map fun name => (name, (d.find? name).getD default) := by
  induction d with
  | nil => rfl
  | cons entry rest ih =>
    obtain ⟨key, value⟩ := entry
    obtain ⟨hnew, hrest⟩ := List.nodup_cons.mp h
    have hkey : find? key ((key, value) :: rest) = some value := by rw [find?, if_pos rfl]
    have hothers : (names rest).map (fun name =>
        (name, (find? name ((key, value) :: rest)).getD default)) = rest := by
      refine Eq.trans (List.map_congr_left fun name hname => ?_) (ih hrest).symm
      rw [find?, if_neg fun heq => hnew (by rwa [← heq])]
    change _ = (key, _) :: (names rest).map _
    rw [hkey, hothers]
    rfl

/-- What is added up by key is added up altogether, if no key is left out. -/
theorem sum_map_filter_key {ι : Type} (keys : List String) (hkeys : keys.Nodup) (key : ι → String)
    (weigh : ι → ℚ) (l : List ι) (h : ∀ a ∈ l, key a ∈ keys) :
    (keys.map fun k => ((l.filter (key · = k)).map weigh).sum).sum = (l.map weigh).sum := by
  rw [← List.sum_toFinset _ hkeys]
  induction l with
  | nil => simp
  | cons a l ih =>
    obtain ⟨ha, hl⟩ := List.forall_mem_cons.mp h
    have hcons (k : String) : (((a :: l).filter (key · = k)).map weigh).sum =
        (if key a = k then weigh a else 0) + ((l.filter (key · = k)).map weigh).sum := by
      rw [List.filter_cons]
      by_cases hk : key a = k <;> simp [hk]
    simp only [hcons, Finset.sum_add_distrib, ih hl, Finset.sum_ite_eq, List.mem_toFinset,
      if_pos ha, List.map_cons, List.sum_cons]

namespace Distribution
open Grammar (bind_eq_ok_iff mapError_eq_ok_iff)

section Shares
variable {α : Type} [OfNat α 0] [Add α] [Div α] (total : α) (weighted : List (String × α))

/-- The last weight is counted last. -/
theorem sharesOf_concat (last : String × α) :
    sharesOf total (weighted ++ [last]) = addShare total (sharesOf total weighted) last :=
  List.foldl_concat _ _ _ _

/-- There is a share for every text, in the order in which the texts come up first. -/
theorem names_sharesOf : (sharesOf total weighted).names = (weighted.map (·.1)).eraseDups := by
  induction weighted using List.reverseRecOn with
  | nil => rfl
  | append_singleton weighted last ih =>
    rw [sharesOf_concat, addShare, Directory.names_assign, ih, List.map_append, List.map_singleton,
      eraseDups_concat]
    simp only [List.mem_eraseDups]

/-- The share of a text is added up of those of its weights, one after the other. -/
theorem find?_sharesOf (text : String) : ((sharesOf total weighted).find? text).getD 0 =
    ((weighted.filter (·.1 = text)).map (·.2)).foldl (fun sum w => sum + w / total) 0 := by
  induction weighted using List.reverseRecOn with
  | nil => rfl
  | append_singleton weighted last ih =>
    rw [sharesOf_concat, addShare, Directory.find?_assign, List.filter_append]
    by_cases h : text = last.1
    · subst h
      simp [ih]
    · simp [h, Ne.symm h, ih]

/-- Each text has one share, which sums up the parts of its weights in the order of the rules. -/
theorem sharesOf_eq : sharesOf total weighted = (weighted.map (·.1)).eraseDups.map fun text =>
    (text, ((weighted.filter (·.1 = text)).map (·.2)).foldl (fun sum w => sum + w / total) 0) := by
  have hnames := names_sharesOf total weighted
  have hnodup : (sharesOf total weighted).names.Nodup := hnames ▸ nodup_eraseDups _
  rw [Directory.eq_map_find? _ 0 hnodup, hnames]
  exact List.map_congr_left fun text _ => by rw [find?_sharesOf]

end Shares

section Rows
variable {α : Type} [NatCast α] [OfNat α 0] [Add α] [Div α]

def weightsOf (weigh : Located Rule → α) (t : Table) (text : String) : List α :=
  (t.rules.filter (·.value.contentText = text)).map weigh

def totalOf (weigh : Located Rule → α) (t : Table) : α :=
  (runningSums (t.rules.map weigh)).getLastD 0

/-- The rows of the report on a table, given all samples, in the arithmetic of the numbers that the
weights are read as. The report reads them as doubles. -/
def rowsOf (weigh : Located Rule → α) (t : Table) (samples : List String) : List (Row α) :=
  rows (expectedShares (totalOf weigh t) weigh t.rules) samples samples.length

/-- The rows in full: one for each text, with what it is expected and observed to be. -/
theorem rowsOf_eq (weigh : Located Rule → α) (t : Table) (samples : List String) :
    rowsOf weigh t samples = (t.rules.map (·.value.contentText)).eraseDups.map fun text =>
      ⟨text, (weightsOf weigh t text).foldl (fun sum w => sum + w / totalOf weigh t) 0,
        observedShare samples samples.length text⟩ := by
  rw [rowsOf, rows, expectedShares, sharesOf_eq, List.map_map, List.map_map]
  refine List.map_congr_left fun text _ => ?_
  rw [Function.comp_apply, List.filter_map, List.map_map]
  rfl

theorem texts_rowsOf (weigh : Located Rule → α) (t : Table) (samples : List String) :
    (rowsOf weigh t samples).map (·.text) = (t.rules.map (·.value.contentText)).eraseDups := by
  rw [rowsOf_eq, List.map_map]
  exact List.map_id _

/-- What a row expects is summed up from the weights of its text. -/
theorem expected_of_mem_rowsOf {weigh : Located Rule → α} {t : Table} {samples : List String}
    {row : Row α} (h : row ∈ rowsOf weigh t samples) :
    row.expected =
      (weightsOf weigh t row.text).foldl (fun sum w => sum + w / totalOf weigh t) 0 := by
  rw [rowsOf_eq] at h
  obtain ⟨text, -, rfl⟩ := List.mem_map.mp h
  rfl

end Rows

/-- The rows of the report in exact arithmetic. Each text is expected with the part of the total
that the weights of its rules have together, and with all of them the total is used up. -/
structure ExpectsExactly (t : Table) (samples : List String) (weigh : Located Rule → ℚ) :
    Prop where
  texts : (rowsOf weigh t samples).map (·.text) = (t.rules.map (·.value.contentText)).eraseDups
  expected : ∀ row ∈ rowsOf weigh t samples,
    row.expected = (weightsOf weigh t row.text).sum / (t.rules.map weigh).sum
  whole : ((rowsOf weigh t samples).map (·.expected)).sum = 1

/-- In exact arithmetic, parts of the total add up to a part of it. -/
theorem foldl_add_div (total sum : ℚ) (weights : List ℚ) :
    weights.foldl (fun sum w => sum + w / total) sum = sum + weights.sum / total := by
  induction weights generalizing sum with
  | nil => simp
  | cons w weights ih => rw [List.foldl_cons, ih, List.sum_cons, add_div, add_assoc]

/-- The weights of all texts together are the weights of all rules, so that no part of the total is
left over. -/
theorem expectsExactly {t : Table} (samples : List String) (hrules : t.rules ≠ [])
    {weigh : Located Rule → ℚ} (hweigh : ∀ r ∈ t.rules, 0 < weigh r) :
    ExpectsExactly t samples weigh := by
  have hexpected : ∀ row ∈ rowsOf weigh t samples,
      row.expected = (weightsOf weigh t row.text).sum / (t.rules.map weigh).sum := by
    intro row hrow
    rw [expected_of_mem_rowsOf hrow, foldl_add_div, zero_add, totalOf, getLastD_runningSums]
  refine ⟨texts_rowsOf weigh t samples, hexpected, ?_⟩
  have hpos : 0 < (t.rules.map weigh).sum :=
    List.sum_pos _ (List.forall_mem_map.mpr hweigh) (mt List.map_eq_nil_iff.mp hrules)
  -- Every rule goes into the row of its text, and into no other.
  have hsum := sum_map_filter_key _ (nodup_eraseDups (t.rules.map (·.value.contentText)))
    (·.value.contentText) weigh t.rules fun r hr => List.mem_eraseDups.mpr (List.mem_map_of_mem hr)
  have hparts : (rowsOf weigh t samples).map (·.expected) =
      (t.rules.map (·.value.contentText)).eraseDups.map fun text =>
        ((t.rules.filter (·.value.contentText = text)).map weigh).sum *
          ((t.rules.map weigh).sum)⁻¹ := by
    rw [List.map_congr_left hexpected, ← texts_rowsOf weigh t samples, List.map_map]
    exact List.map_congr_left fun row _ => div_eq_mul_inv _ _
  rw [hparts, List.sum_map_mul_right, hsum, mul_inv_cancel₀ hpos.ne']

section Samples
variable {σ : Type} [WordSource σ] {p : Program} {c : Collection} {t : Table} {id : String}

/-- A rule of plain text always gives its text. -/
theorem ensures_plainRule {attempts : Nat} {single : String → Generation σ String}
    {owner : String} {r : Rule}
    (hplain : r.expressions = []) :
    Ensures (r.generate attempts single owner) (· = r.contentText) fun _ => False := by
  have hitems : Ensures (r.content.mapM (Item.generate attempts single owner))
      (List.Forall₂ (fun item text => item.print = text) r.content) fun _ => False := by
    refine ensures_mapM fun item hitem => ?_
    have htext := List.filter_eq_nil_iff.mp hplain item hitem
    cases item with
    | text s => exact ensures_pure rfl
    | table | external | dice => exact absurd rfl htext
  refine ensures_bind hitems fun texts htexts => ensures_pure ?_
  have hprinted : r.content.map Item.print = texts := by
    rw [← List.forall₂_eq_eq_eq, List.forall₂_map_left_iff]
    exact htexts
  rw [Rule.contentText, hprinted]

/-- From a table of plain text as many texts are generated as asked, and all are texts of its rules.
-/
theorem ensures_plainTable (h : (Collection.load p).outcome = .ok c)
    (ht : p.lastDeclaration? id = some t) (hplain : ∀ r ∈ t.rules, r.value.expressions = [])
    (trials : Nat) :
    Ensures (sampling c id trials : Generation σ (List String))
      (fun samples => samples.length = trials ∧
        ∀ sample ∈ samples, sample ∈ t.rules.map (·.value.contentText)) fun _ => False := by
  obtain ⟨depth, hdepth⟩ : ∃ depth, Collection.usualDepth = depth + 1 := ⟨999, rfl⟩
  rw [sampling, hdepth]
  generalize Collection.usualAttempts = attempts
  have hone : Ensures (c.generateNested attempts (depth + 1) id : Generation σ String)
      (· ∈ t.rules.map (·.value.contentText)) fun _ => False := by
    refine Collection.ensures_generateNested_succ h ht fun r hr => ?_
    refine ensures_mono (ensures_plainRule (hplain r hr)) ?_ fun _ hnever => hnever
    rintro _ rfl
    exact List.mem_map_of_mem hr
  have hmany : Ensures (c.generateMany attempts (depth + 1) id trials : Generation σ (List String))
      (List.Forall₂ (fun _ sample => sample ∈ t.rules.map (·.value.contentText))
        (List.replicate trials id)) fun _ => False := by
    refine ensures_mapM fun other hother => ?_
    rwa [List.eq_of_mem_replicate hother]
  refine ensures_mono hmany (fun samples hsamples => ⟨?_, ?_⟩) fun _ hnever => hnever
  · rw [← hsamples.length_eq, List.length_replicate]
  · exact forall_of_forall₂ (P := fun _ => True) hsamples (fun _ _ hmem _ => hmem)
      fun _ _ => trivial

/-- The report on a table accounts for the samples and for the rules. There is a row for every text
of a rule, in the order in which the texts come up first; every sample is the text of a row, and the
rows together count all of them. The expected share of a row is added up of the weights of its
rules, each as a part of the total. That is done in doubles; in exact arithmetic it gives the part
that the weights have together, and all parts add up to one. -/
structure Accounts (t : Table) (samples : List String) (rows : List (Row Float)) : Prop where
  rows_eq : rows = rowsOf (·.value.weight) t samples
  texts : rows.map (·.text) = (t.rules.map (·.value.contentText)).eraseDups
  sampled : ∀ sample ∈ samples, sample ∈ rows.map (·.text)
  counted : (rows.map fun row => samples.count row.text).sum = samples.length
  observed : ∀ row ∈ rows,
    row.observed = Float.ofNat (samples.count row.text) / Float.ofNat samples.length
  expected : ∀ row ∈ rows, row.expected = (weightsOf (·.value.weight) t row.text).foldl
    (fun sum w => sum + w / (PreparedTable.ofTable t).total) 0
  positive : ∀ r ∈ t.rules, r.value.weight.isFinite = true → 0 < value r.value.weight
  exactly : ∀ weigh : Located Rule → ℚ, (∀ r ∈ t.rules, 0 < weigh r) →
    ExpectsExactly t samples weigh

/-- Each sample is counted for one text. -/
theorem sum_count {texts samples : List String} (hnodup : texts.Nodup)
    (h : ∀ sample ∈ samples, sample ∈ texts) : (texts.map samples.count).sum = samples.length := by
  rw [← List.sum_toFinset _ hnodup]
  have hmem : ∀ sample ∈ (samples : Multiset String), sample ∈ texts.toFinset :=
    fun sample hsample => List.mem_toFinset.mpr (h sample hsample)
  have hcard := Multiset.sum_count_eq_card hmem
  simpa only [Multiset.coe_count, Multiset.coe_card] using hcard

/-- A table that passes the check has rules of plain text alone. -/
theorem of_plainTable {t : PreparedTable} (h : plainTable c id = .ok t) :
    c.table id = .ok t ∧ ∀ r ∈ t.table.rules, r.value.expressions = [] := by
  obtain ⟨t', htable, h⟩ := bind_eq_ok h
  split at h
  · cases h
  · rename_i hplain
    cases h
    exact ⟨(mapError_eq_ok_iff _ _ _).mp htable, by simpa using hplain⟩

/-- The samples are texts of rules, and so are the rows. -/
theorem accounts {samples : List String} (hrules : t.rules ≠ [])
    (hsamples : ∀ sample ∈ samples, sample ∈ t.rules.map (·.value.contentText))
    (hpositive : ∀ r ∈ t.rules, 0 < r.value.weight) :
    Accounts t samples (rowsOf (·.value.weight) t samples) := by
  have htexts : (rowsOf (·.value.weight) t samples).map (·.text) =
      (t.rules.map (·.value.contentText)).eraseDups := texts_rowsOf _ t samples
  have hknown : ∀ sample ∈ samples,
      sample ∈ (rowsOf (·.value.weight) t samples).map (·.text) := by
    intro sample hsample
    rw [htexts, List.mem_eraseDups]
    exact hsamples sample hsample
  constructor
  case rows_eq => rfl
  case texts => exact htexts
  case sampled => exact hknown
  case counted =>
    have hcount := sum_count (htexts ▸ nodup_eraseDups _) hknown
    rwa [List.map_map] at hcount
  case observed =>
    intro row hrow
    obtain ⟨_, _, rfl⟩ := List.mem_map.mp hrow
    rfl
  case expected => exact fun row hrow => expected_of_mem_rowsOf hrow
  case positive => exact fun r hr hfinite => (zero_lt_iff hfinite).mp (hpositive r hr)
  case exactly => exact fun weigh hweigh => expectsExactly samples hrules hweigh

/-- The report is made of samples from the last declaration of the table, of which there are as many
as asked. -/
theorem exists_samples_of_check {text : String} {trials : Int} {random : σ} {report : String}
    (h : check text id trials random = .ok report) :
    ∃ p t samples, Program.parse (String.ofList (Text.unifyLineEnds text.toList)) = .ok p ∧
      (Collection.load p).outcome = .ok (Collection.ofDeclarations p) ∧
      p.lastDeclaration? id = some t ∧ (∀ r ∈ t.rules, r.value.expressions = []) ∧
      ((sampling (Collection.ofDeclarations p) id trials.toNat).run random).1 = .ok samples ∧
      1 ≤ trials ∧ report = render id trials.toNat (rows
        (expectedShares (totalOf (·.value.weight) t) (·.value.weight) t.rules) samples
        trials.toNat) := by
  rw [check] at h
  split at h
  · cases h
  · rename_i htrials
    obtain ⟨loading, hsource, h⟩ := bind_eq_ok h
    obtain ⟨c, hload, h⟩ := bind_eq_ok h
    obtain ⟨prepared, htable, h⟩ := bind_eq_ok h
    obtain ⟨samples, hsamples, hreport⟩ := bind_eq_ok h
    rw [mapError_eq_ok_iff] at hsource hload hsamples
    obtain ⟨p, hparse, hcomplete⟩ := Collection.ofSource_eq_ok hsource hload
    obtain ⟨-, rfl⟩ := (Collection.load_eq_ok_iff p c).mp hcomplete
    obtain ⟨hfound, hplain⟩ := of_plainTable htable
    obtain ⟨t, ht, rfl⟩ : ∃ t, p.lastDeclaration? id = some t ∧ prepared = .ofTable t := by
      rw [Collection.table, Collection.find?_of_load hcomplete] at hfound
      cases hlast : p.lastDeclaration? id with
      | none =>
        rw [hlast] at hfound
        cases hfound
      | some t =>
        rw [hlast] at hfound
        exact ⟨t, rfl, (Except.ok.inj hfound).symm⟩
    exact ⟨p, t, samples, hparse, hcomplete, ht, hplain, hsamples, by omega,
      (Except.ok.inj hreport).symm⟩

/-- A table of plain text always gets its report. -/
theorem exists_report {text : String} {trials : Int}
    (hparse : Program.parse (String.ofList (Text.unifyLineEnds text.toList)) = .ok p)
    (hload : (Collection.load p).outcome = .ok c) (ht : p.lastDeclaration? id = some t)
    (hplain : ∀ r ∈ t.rules, r.value.expressions = []) (htrials : 1 ≤ trials) (random : σ) :
    ∃ report, check text id trials random = .ok report := by
  have hsource : Collection.ofSource (String.ofList (Text.unifyLineEnds text.toList)) =
      .ok (Collection.load p) := by
    rw [Collection.ofSource, hparse]
  have hfound : c.table id = .ok (.ofTable t) := by
    rw [Collection.table, Collection.find?_of_declaration hload ht]
  have htable : plainTable c id = .ok (.ofTable t) := by
    refine (bind_eq_ok_iff _ _ _).mpr ⟨_, (mapError_eq_ok_iff _ _ _).mpr hfound, ?_⟩
    have hexpressions : ¬(t.rules.any fun rule => !rule.value.expressions.isEmpty) = true := by
      simpa using hplain
    exact if_neg hexpressions
  obtain ⟨samples, hsamples⟩ :
      ∃ samples, ((sampling c id trials.toNat).run random).1 = .ok samples := by
    have hensured := ensures_plainTable (σ := σ) hload ht hplain trials.toNat random
    generalize ((sampling c id trials.toNat).run random).1 = outcome at hensured
    cases outcome with
    | ok samples => exact ⟨samples, rfl⟩
    | error failure => exact hensured.elim
  -- All steps have a result by now, and are made in the order of the report.
  refine ⟨render id trials.toNat (rows
    (expectedShares (totalOf (·.value.weight) t) (·.value.weight) t.rules) samples
    trials.toNat), ?_⟩
  rw [check, if_neg (by omega)]
  refine (bind_eq_ok_iff _ _ _).mpr ⟨_, (mapError_eq_ok_iff _ _ _).mpr hsource, ?_⟩
  refine (bind_eq_ok_iff _ _ _).mpr ⟨_, (mapError_eq_ok_iff _ _ _).mpr hload, ?_⟩
  refine (bind_eq_ok_iff _ _ _).mpr ⟨_, htable, ?_⟩
  exact (bind_eq_ok_iff _ _ _).mpr ⟨_, (mapError_eq_ok_iff _ _ _).mpr hsamples, rfl⟩

/-- The texts of rules of plain text stand on one line. -/
theorem oneLine_contentText {r : Rule} (h : WellFormed r.content) (hplain : r.expressions = []) :
    OneLine r.contentText := by
  have hprinted : ∀ printed ∈ r.content.map Item.print, OneLine printed := by
    rw [List.forall_mem_map]
    intro item hitem
    have htext := List.filter_eq_nil_iff.mp hplain item hitem
    cases h.writable item hitem with
    | text hs => exact hs.oneLine
    | _ => exact absurd rfl htext
  rw [Rule.contentText, Text.strip]
  refine oneLine_ofList fun hmem => ?_
  have hjoined := (Text.trim_sublist _).subset hmem
  rw [String.toList_join, List.mem_flatMap] at hjoined
  obtain ⟨printed, hprinted', hfeed⟩ := hjoined
  exact hprinted printed hprinted' hfeed

/-- A report that is made accounts for all samples, of which there are as many as trials, and for
all rules of the table, and its lines say so. -/
theorem check_accounts {text : String} {trials : Int} {random : σ} {report : String}
    (h : check text id trials random = .ok report) :
    ∃ p t samples rows,
      Program.parse (String.ofList (Text.unifyLineEnds text.toList)) = .ok p ∧
      p.lastDeclaration? id = some t ∧
      ((sampling (Collection.ofDeclarations p) id trials.toNat).run random).1 = .ok samples ∧
      samples.length = trials ∧ Accounts t samples rows ∧
      report = render id samples.length rows ∧
      Prints id samples.length rows (Text.rawLines report.toList) := by
  obtain ⟨p, t, samples, hparse, hload, ht, hplain, hrun, htrials, hreport⟩ :=
    exists_samples_of_check h
  have hsamples := ensures_plainTable (σ := σ) hload ht hplain trials.toNat random
  rw [hrun] at hsamples
  obtain ⟨hlength, hmem⟩ := hsamples
  obtain ⟨table, htable, htableEq⟩ := List.mem_map.mp (Program.lastDeclaration_mem ht)
  have haccounts := accounts ((Collection.isComplete_of_load hload).rules t
    (Program.lastDeclaration_mem ht)) hmem
    fun r hr => (Program.roundsTo_weight hparse (Program.lastDeclaration_mem ht) hr).2
  have hid : OneLine id := by
    have hname := isName_of_parse hparse table htable
    rw [htableEq, Program.lastDeclaration_id ht] at hname
    exact not_mem_of_isName (by decide) (by decide) hname
  have htexts : ∀ row ∈ rowsOf (·.value.weight) t samples, OneLine row.text := by
    intro row hrow
    have htext := List.mem_map_of_mem (f := (·.text)) hrow
    rw [texts_rowsOf, List.mem_eraseDups] at htext
    obtain ⟨r, hr, heq⟩ := List.mem_map.mp htext
    rw [← heq]
    subst htableEq
    exact oneLine_contentText (wellFormed_of_parse _ p hparse table htable r hr) (hplain r hr)
  have hrender : report = render id samples.length (rowsOf (·.value.weight) t samples) := by
    rw [hreport, rowsOf, hlength]
  refine ⟨p, t, samples, _, hparse, ht, hrun, by omega, haccounts, hrender, ?_⟩
  rw [hrender]
  exact prints_render _ hid htexts

end Samples

open Collection (sameTexts exists_program_sameTexts)

/-- Whatever is drawn, of five samples none is left out. -/
theorem check_accounts_sameTexts : ∃ report p t samples rows,
    check sameTexts "t" 5 (Twister.State.ofSeed 7) = .ok report ∧
      Program.parse (String.ofList (Text.unifyLineEnds sameTexts.toList)) = .ok p ∧
      p.lastDeclaration? "t" = some t ∧
      ((sampling (Collection.ofDeclarations p) "t" 5).run (Twister.State.ofSeed 7)).1 =
        .ok samples ∧
      samples.length = 5 ∧ Accounts t samples rows ∧ report = render "t" samples.length rows ∧
      Prints "t" samples.length rows (Text.rawLines report.toList) := by
  have hunified : String.ofList (Text.unifyLineEnds sameTexts.toList) = sameTexts := by decide
  obtain ⟨p, t, hparse, hload, ht, hcontents, -⟩ := exists_program_sameTexts
  have hplain : ∀ r ∈ t.rules, r.value.expressions = [] := by
    intro r hr
    have hcontent := List.mem_map_of_mem (f := (·.value.content)) hr
    rw [hcontents] at hcontent
    rw [Rule.expressions]
    revert hcontent
    generalize r.value.content = content
    simp only [List.mem_cons, List.not_mem_nil, or_false]
    rintro (rfl | rfl | rfl) <;> rfl
  obtain ⟨report, hreport⟩ := exists_report (hunified ▸ hparse) hload ht hplain
    (by decide : (1 : Int) ≤ 5) (Twister.State.ofSeed 7)
  obtain ⟨p', t', samples, rows, hparse', ht', hrun, hlength, haccounts, hrender, hprints⟩ :=
    check_accounts hreport
  exact ⟨report, p', t', samples, rows, hreport, hparse', ht', hrun, by exact_mod_cast hlength,
    haccounts, hrender, hprints⟩

end Distribution

end RandomTables
