import LeastAccess.CommandLine.Program
import LeastAccess.Files.Tree
import LeastAccess.Proofs.Binary64.Numeral
import LeastAccess.Proofs.Command.Outcomes
import LeastAccess.Proofs.Schema.Fields

/-!
# How many workers

The number of workers is checked in three places: as a member of a configuration, as an argument, and where an
analysis is set up. All of them ask for a whole number that is at least one, so what passes one of the first
two passes the last.

* `Config.validate_analysis_iff` — what the format asks for
* `CommandLine.readConcurrency?_padded` — which numerals are read
* `CommandLine.always_parse` — the number in the options is read from some argument
* `concurrency_checks_agree` — the checks agree, numerals are read exactly, and no analysis fails for its number
-/

namespace LeastAccess

/-! ## The number in a configuration -/

namespace Config

/-- The flags among the members are truth values. -/
def FlagsFit (members : Members Json) : Prop :=
  ∀ flag ∈ ({} : Options).toMembers, ∀ v, Members.get? members flag.1 = some v → ∃ b, v = .bool b

theorem exists_reads_flag_iff {b : Bool} {v : Option Json} :
    (∃ w, (Field.defaulted (.bool b) .flag).Reads v w) ↔ ∀ v', v = some v' → ∃ b', v' = .bool b' := by
  constructor
  · rintro ⟨_, h⟩ v' rfl
    cases h with
    | defaulted h =>
      obtain ⟨b', hv, -⟩ := h
      exact ⟨b', Option.some.inj hv⟩
  · intro h
    cases v with
    | none => exact ⟨_, .defaulted ⟨b, rfl, rfl⟩⟩
    | some v =>
      obtain ⟨b', rfl⟩ := h v rfl
      exact ⟨_, .defaulted ⟨b', rfl, rfl⟩⟩

theorem exists_reads_number_iff {value : Json} {x : Binary64} :
    (∃ w, (Field.defaulted value (.whole true)).Reads (some (.number x)) w) ↔ x.IsCount := by
  rw [Binary64.isCount_iff_isPositive]
  constructor
  · rintro ⟨_, h⟩
    cases h with
    | defaulted h =>
      obtain ⟨y, hv, -, hy⟩ := h
      cases hv
      exact hy
  · exact fun h => ⟨_, .defaulted ⟨x, rfl, rfl, h⟩⟩

/-- The fields of the format: one for each flag, then the number of workers. -/
theorem exists_analysis_fields : ∃ fields, Format.analysis = .object fields ∧ fields.toList =
    ({} : Options).toMembers.map (fun flag => (flag.1, .defaulted flag.2 .flag)) ++
      [("concurrency", .defaulted (.number Analysis.defaultConcurrency) (.whole true))] :=
  ⟨_, rfl, rfl⟩

/-- The format accepts a number of workers that is at least one, beside flags that fit. -/
theorem validate_analysis_iff {members : Members Json} {x : Binary64}
    (hx : Members.get? members "concurrency" = some (.number x)) :
    (∃ w, Format.analysis.validate (some (.object members)) = .ok w) ↔ FlagsFit members ∧ x.IsCount := by
  obtain ⟨fields, hformat, hfields⟩ := exists_analysis_fields
  have hread : (∃ w, Format.analysis.validate (some (.object members)) = .ok w) ↔
      ∃ ms, fields.Read members ms := by
    simp only [Schema.validate_eq_ok_iff, hformat, Schema.Reads]
    constructor
    · rintro ⟨_, _, ms, hmembers, -, hms⟩
      cases hmembers
      exact ⟨ms, hms⟩
    · rintro ⟨ms, hms⟩
      exact ⟨_, members, ms, rfl, rfl, hms⟩
  have hflag : ∀ flag ∈ ({} : Options).toMembers, ∃ b, flag.2 = .bool b := by
    simp [Options.toMembers]
  rw [hread, Fields.exists_read_iff, hfields, List.forall_mem_append, List.forall_mem_map,
    List.forall_mem_singleton, hx, exists_reads_number_iff]
  refine and_congr_left fun _ => forall₂_congr fun flag hmem => ?_
  obtain ⟨b, hb⟩ := hflag flag hmem
  rw [hb, exists_reads_flag_iff]

end Config

/-! ## The number among the arguments -/

namespace CommandLine

theorem isCount_of_readConcurrency? {argument : String} {x : Binary64} (h : readConcurrency? argument = some x) :
    x.IsCount := by
  simp only [readConcurrency?] at h
  split at h
  · cases h
  · next hcheck =>
    cases h
    have hpassed : Text.trim argument ≠ "" ∧
        (Numeral.read argument).isInteger = true ∧ (Numeral.read argument).lt .one = false := by
      simpa [and_assoc, -not_and] using hcheck
    exact Binary64.isCount_iff_not_lt_one.mpr hpassed.2

/-- What is read as a value below one is no number of workers. -/
theorem readConcurrency?_eq_none {argument : String} (h : (Numeral.read argument).lt .one = true) :
    readConcurrency? argument = none := by
  simp [readConcurrency?, h]

section

variable {before after : List Char} (hbefore : ∀ b ∈ before, Text.isBlank b = true)
  (hafter : ∀ b ∈ after, Text.isBlank b = true)

include hbefore hafter

/-- The numeral of a whole number that is at least one and fits a significand, between blanks. -/
theorem readConcurrency?_padded (zeros : Nat) {n : Nat} (hpos : 1 ≤ n) (hle : n ≤ Binary64.significandBound) :
    readConcurrency? (String.ofList (before ++ Numeral.padded zeros n ++ after)) =
      some (.ofDecimal false n 0) := by
  have hblank : ∀ c ∈ Numeral.padded zeros n, Text.isBlank c = false :=
    fun c hc => Text.isBlank_of_isDigit (Numeral.isDigit_of_mem_padded hc)
  have hread := (Numeral.read_between hbefore hafter hblank).trans (Numeral.readChars_padded zeros n)
  have htrim : (Text.trim (String.ofList (before ++ Numeral.padded zeros n ++ after))).isEmpty = false := by
    rw [Text.trim, String.toList_ofList, Text.trimChars_between hbefore hafter hblank]
    simp [Numeral.padded_ne_nil]
  have hcount : (Binary64.ofDecimal false n 0).IsCount :=
    ⟨n, Int.ofNat_le.mpr hpos, Binary64.isWhole_ofDecimal hle⟩
  obtain ⟨hinteger, hlt⟩ := Binary64.isCount_iff_not_lt_one.mp hcount
  rw [readConcurrency?, hread, htrim, hinteger, hlt]
  rfl

/-- Zero is refused however it is written. -/
theorem readConcurrency?_zero (zeros : Nat) :
    readConcurrency? (String.ofList (before ++ Numeral.padded zeros 0 ++ after)) = none := by
  have hblank : ∀ c ∈ Numeral.padded zeros 0, Text.isBlank c = false :=
    fun c hc => Text.isBlank_of_isDigit (Numeral.isDigit_of_mem_padded hc)
  refine readConcurrency?_eq_none ?_
  rw [Numeral.read_between hbefore hafter hblank, Numeral.readChars_padded,
    (Binary64.isWhole_ofDecimal (Nat.zero_le _)).lt_one_iff]
  decide

/-- So is what has a sign, of any size. -/
theorem readConcurrency?_minus (zeros n : Nat) :
    readConcurrency? (String.ofList (before ++ '-' :: Numeral.padded zeros n ++ after)) = none := by
  have hblank : ∀ c ∈ '-' :: Numeral.padded zeros n, Text.isBlank c = false :=
    List.forall_mem_cons.mpr
      ⟨by decide, fun c hc => Text.isBlank_of_isDigit (Numeral.isDigit_of_mem_padded hc)⟩
  refine readConcurrency?_eq_none ?_
  rw [Numeral.read_between hbefore hafter hblank, Numeral.readChars_minus_padded]
  exact Binary64.lt_one_ofDecimal_true n 0

end

/-- The number in the options, if there is one, was read from some argument. -/
def ReadsConcurrency (o : Command.AnalyzeOptions) : Prop :=
  ∀ x, o.concurrency = some x → ∃ argument, readConcurrency? argument = some x

namespace Invocation

/-- Options of an analysis have the number that was read. -/
def Reads : Invocation → Prop
  | .analyze _ options => ReadsConcurrency options
  | _ => True

theorem always_addOption {o : Command.AnalyzeOptions} (ho : ReadsConcurrency o) (given : Flag × Option String) :
    Always ReadsConcurrency (addOption o given) := by
  obtain ⟨flag, _ | value⟩ := given
  · by_cases hjson : flag = jsonFlag
    · simp only [addOption, if_pos hjson]
      exact Always.pure ho
    · simp only [addOption, if_neg hjson]
      exact Always.pure ho
  · by_cases hconfig : flag = configFlag
    · simp only [addOption, if_pos hconfig]
      exact Always.pure ho
    by_cases hconcurrency : flag = concurrencyFlag
    · simp only [addOption, if_neg hconfig, if_pos hconcurrency]
      cases hread : readConcurrency? value with
      | none => exact Always.error _
      | some n =>
        refine Always.pure fun x hx => ⟨value, ?_⟩
        cases hx
        exact hread
    · simp only [addOption, if_neg hconfig, if_neg hconcurrency]
      exact Always.pure ho

theorem always_addOptions {o : Command.AnalyzeOptions} (ho : ReadsConcurrency o)
    (given : List (Flag × Option String)) : Always ReadsConcurrency (given.foldlM addOption o) := by
  induction given generalizing o with
  | nil => exact Always.pure ho
  | cons option given ih =>
    rw [List.foldlM_cons]
    exact (always_addOption ho option).bind fun _ ho' => ih ho'

theorem always_ofCommand (verb : Verb) (operands rest : List String) :
    Always Reads (ofCommand verb operands rest) := by
  unfold ofCommand
  have hnone : ReadsConcurrency {} := fun _ hx => nomatch hx
  refine (always_addOptions hnone _).bind fun options hoptions => ?_
  dsimp only
  split
  · exact Always.error _
  split
  · exact Always.pure trivial
  split
  · exact Always.error _
  split
  · exact Always.pure hoptions
  · exact Always.error _
  · exact Always.pure trivial

theorem always_parse (args : List String) : Always Reads (parse args) := by
  unfold parse
  dsimp only
  split
  · exact Always.pure trivial
  split
  · split
    · exact always_ofCommand _ _ _
    split
    · split
      · exact Always.pure trivial
      split
      · exact Always.pure trivial
      · split <;> exact Always.pure trivial
    split
    · exact Always.pure trivial
    · exact Always.error _
  · split
    · exact Always.pure trivial
    · exact Always.error _
  · exact Always.pure trivial

end Invocation

end CommandLine

/-! ## All of them -/

open CommandLine in
/-- **The checks of the number of workers agree.** The format of a configuration accepts, beside flags that
fit, just the numbers with which an analysis can be set up, which are the whole numbers from one on. An
argument that is read gives such a number. A numeral of a whole number from one to `2^53` is read as this
number, with any zeros in front and any blanks around it; a numeral of zero, or one with a sign, is refused.
So whatever the arguments and the files are, an analysis never fails because of the number of workers: it ends
with a report, unless the configuration or the snapshot could not be loaded. -/
theorem concurrency_checks_agree :
    (∀ (members : Members Json) (x : Binary64), Members.get? members "concurrency" = some (.number x) →
      ((∃ w, Config.Format.analysis.validate (some (.object members)) = .ok w) ↔
        Config.FlagsFit members ∧ Analysis.checkConcurrency x = .ok ())) ∧
    (∀ x, Analysis.checkConcurrency x = .ok () ↔ ∃ k : Int, 1 ≤ k ∧ x.IsWhole k) ∧
    (∀ argument x, readConcurrency? argument = some x →
      Analysis.checkConcurrency x = .ok () ∧
        ∃ w, Config.Format.analysis.validate (some (.object [("concurrency", .number x)])) = .ok w) ∧
    (∀ before after : List Char, (∀ b ∈ before, Text.isBlank b = true) → (∀ b ∈ after, Text.isBlank b = true) →
      ∀ zeros n : Nat,
        (1 ≤ n → n ≤ 2 ^ 53 →
          ∃ x, readConcurrency? (String.ofList (before ++ Numeral.padded zeros n ++ after)) = some x ∧
            x.IsWhole n) ∧
        readConcurrency? (String.ofList (before ++ Numeral.padded zeros 0 ++ after)) = none ∧
        readConcurrency? (String.ofList (before ++ '-' :: Numeral.padded zeros n ++ after)) = none) ∧
    (∀ (m : Type → Type) [Monad m] [LawfulMonad m] (fs : FileSystem m) (clock : m Nat) (args : List String)
      (snapshot : String) (o : Command.AnalyzeOptions) (token : Token),
      Invocation.parse args = .ok (.analyze snapshot o) →
        Always (fun t => Command.Ends o.json t ∧ ∀ e, t ≠ Command.presentFailure o.json e)
          (Command.analyze fs clock snapshot o token)) := by
  refine ⟨fun members x hx => ?_, fun x => Analysis.checkConcurrency_eq_ok_iff, fun argument x h => ?_,
    fun before after hbefore hafter zeros n => ⟨fun hpos hle => ?_, readConcurrency?_zero hbefore hafter zeros,
      readConcurrency?_minus hbefore hafter zeros n⟩,
    fun m _ _ fs clock args snapshot o token h => ?_⟩
  · rw [Config.validate_analysis_iff hx, Analysis.checkConcurrency_eq_ok_iff]
  · have hcount := isCount_of_readConcurrency? h
    have hflags : Config.FlagsFit [("concurrency", .number x)] := by
      simp [Config.FlagsFit, Options.toMembers, Members.get?_cons]
    exact ⟨Analysis.checkConcurrency_eq_ok_iff.mpr hcount,
      (Config.validate_analysis_iff rfl).mpr ⟨hflags, hcount⟩⟩
  · have hbound : n ≤ Binary64.significandBound := by rwa [Binary64.significandBound, Nat.one_shiftLeft]
    exact ⟨_, readConcurrency?_padded hbefore hafter zeros hpos hbound, Binary64.isWhole_ofDecimal hbound⟩
  · have hreads : Invocation.Reads (.analyze snapshot o) := (h ▸ Invocation.always_parse args).ok
    have husable : ∀ x, o.concurrency = some x → Analysis.checkConcurrency x = .ok () := by
      intro x hx
      obtain ⟨argument, hargument⟩ := hreads x hx
      exact Analysis.checkConcurrency_eq_ok_iff.mpr (isCount_of_readConcurrency? hargument)
    exact (Command.always_analyze fs clock snapshot o token husable).imp
      fun _ hends => ⟨hends, hends.ne_presentFailure⟩

/-- The arguments of an analysis with seven workers. -/
theorem CommandLine.Invocation.parse_seven {x : Binary64} (h : readConcurrency? " 007\t" = some x) :
    parse ["analyze", "s.json", "--concurrency", " 007\t"] =
      .ok (.analyze "s.json" { concurrency := some x }) := by
  have hprogram : sort [versionFlag] {} (["analyze", "s.json", "--concurrency", " 007\t"].map (·.toList)) =
      { operands := ["analyze", "s.json"], unknown := ["--concurrency", " 007\t"] } := by
    cbv
  have hverb : sort Verb.analyze.flags {} (["--concurrency", " 007\t"].map (·.toList)) =
      { given := [(concurrencyFlag, some " 007\t")] } := by
    cbv
  have hoptions : [(concurrencyFlag, some " 007\t")].foldlM addOption {} = .ok { concurrency := some x } := by
    rw [List.foldlM_cons, addOption, if_neg (by decide), if_pos rfl, h]
    rfl
  have hcommand : ofCommand .analyze ["s.json"] ["--concurrency", " 007\t"] =
      .ok (.analyze "s.json" { concurrency := some x }) := by
    rw [ofCommand, hverb, hoptions]
    rfl
  rw [parse, hprogram]
  exact hcommand

open CommandLine in
/-- Seven workers, and an analysis with them where no file is. -/
theorem seven_workers_between_blanks :
    (∃ w, Config.Format.analysis.validate
      (some (.object [("suggestForConstants", .bool false), ("concurrency", .number .two)])) = .ok w) ∧
    readConcurrency? " -007\t" = none ∧
    ∃ x, readConcurrency? " 007\t" = some x ∧ x.IsWhole 7 ∧ Analysis.checkConcurrency x = .ok () ∧
      Command.Ends false ((Command.analyze (Tree.fileSystem "/") (pure 0) "s.json" { concurrency := some x }
        .never).run (.directory [])).1 := by
  obtain ⟨hformat, hcheck, hargument, hnumeral, hends⟩ := concurrency_checks_agree
  have hflags : Config.FlagsFit [("suggestForConstants", .bool false), ("concurrency", .number .two)] := by
    simp [Config.FlagsFit, Options.toMembers, Members.get?_cons]
  have hspace : ∀ b ∈ [' '], Text.isBlank b = true := List.forall_mem_singleton.mpr (by decide)
  have htab : ∀ b ∈ ['\t'], Text.isBlank b = true := List.forall_mem_singleton.mpr (by decide)
  obtain ⟨hread, -, hminus⟩ := hnumeral [' '] ['\t'] hspace htab 2 7
  obtain ⟨x, hx, hseven⟩ := hread (by decide) (by decide)
  refine ⟨(hformat _ .two rfl).mpr ⟨hflags, (hcheck _).mpr ⟨2, by decide, Binary64.isWhole_two⟩⟩, hminus, x, hx,
    hseven, (hargument _ x hx).1, ?_⟩
  exact ((hends (StateM Tree) _ _ _ _ _ _ (Invocation.parse_seven hx)).state _).1

end LeastAccess
