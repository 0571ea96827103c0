import GraphDoc.Proofs.AllOrNothing
import Mathlib.Data.List.DropRight

/-!
# Log levels

The selected level decides which lines of a run are shown and nothing else. Each setting shows the
lines of the run that shows all of them, cut down to those that are severe enough, and one that
names no level counts as none and is warned of first.
-/
namespace GraphDoc.Command

/-! ## Settings -/

/-- The names that a setting can give a level by. -/
def levelNames : List (String × Level) :=
  [("TRACE", .trace), ("trace", .trace), ("DEBUG", .debug), ("debug", .debug),
    ("VERBOSE", .debug), ("verbose", .debug), ("INFO", .info), ("info", .info)]

/-- The text is the name, which neither starts nor ends with a blank, between any blanks. -/
def Trims (text name : String) : Prop :=
  ∃ before after, text.toList = before ++ (name.toList ++ after) ∧
    (∀ c ∈ before, isSpace c = true) ∧ (∀ c ∈ after, isSpace c = true) ∧
    (∀ c ∈ name.toList.head?, isSpace c = false) ∧ ∀ c ∈ name.toList.getLast?, isSpace c = false

/-- The level that is selected by the flag for verbose output or, without it, by the environment. -/
inductive Selects : (verbose : Bool) → (environment : Option String) → Level → Prop where
  | flag {environment : Option String} : Selects true environment .debug
  | unset : Selects false none .info
  | named {value name : String} {level : Level} (trims : Trims value name)
      (listed : (name, level) ∈ levelNames) : Selects false (some value) level

theorem Level.ofName?_eq_some_iff {name : String} {level : Level} :
    Level.ofName? name = some level ↔ (name, level) ∈ levelNames := by
  unfold Level.ofName?
  split <;> simp_all [levelNames, eq_comm]

theorem dropWhile_blanks {blanks rest : List Char} (hb : ∀ c ∈ blanks, isSpace c = true)
    (hr : ∀ c ∈ rest.head?, isSpace c = false) : (blanks ++ rest).dropWhile isSpace = rest := by
  rw [List.dropWhile_append_of_pos hb]
  cases rest with
  | nil => rfl
  | cons c rest => exact List.dropWhile_cons_of_neg (by simp [hr c rfl])

theorem Trims.trimmed_eq {text name : String} (h : Trims text name) : trimmed text = name := by
  obtain ⟨before, after, htext, hbefore, hafter, hfirst, hlast⟩ := h
  have hstart : text.toList.dropWhile isSpace = name.toList ++ after ∨
      name.toList = [] ∧ text.toList.dropWhile isSpace = [] := by
    cases hname : name.toList with
    | nil =>
      -- without a name to stop at, the blanks behind it are dropped as well
      refine .inr ⟨rfl, List.dropWhile_eq_nil_iff.mpr fun c hc => ?_⟩
      rw [htext, hname, List.nil_append, List.mem_append] at hc
      exact hc.elim (hbefore c) (hafter c)
    | cons c cs =>
      rw [htext, hname]
      rw [hname] at hfirst
      exact .inl (dropWhile_blanks hbefore hfirst)
  have hend : (name.toList ++ after).reverse.dropWhile isSpace = name.toList.reverse := by
    rw [List.reverse_append]
    exact dropWhile_blanks (by simpa using hafter) (by simpa using hlast)
  rw [← String.toList_inj, trimmed, String.toList_ofList]
  rcases hstart with hstart | ⟨hname, hstart⟩
  · rw [hstart, hend, List.reverse_reverse]
  · rw [hstart, hname]
    rfl

theorem trims_trimmed (text : String) : Trims text (trimmed text) := by
  have hname : (trimmed text).toList = (text.toList.dropWhile isSpace).rdropWhile isSpace :=
    String.toList_ofList ..
  have hrest := List.rdropWhile_append_rtakeWhile (p := isSpace)
    (l := text.toList.dropWhile isSpace)
  rw [← hname] at hrest
  refine ⟨text.toList.takeWhile isSpace, (text.toList.dropWhile isSpace).rtakeWhile isSpace, ?_,
    fun c hc => List.mem_takeWhile_imp hc, fun c hc => List.mem_rtakeWhile_imp hc, ?_, ?_⟩
  · rw [hrest, List.takeWhile_append_dropWhile]
  · intro c hc
    have hhead : (text.toList.dropWhile isSpace).head? = some c := by
      rw [← hrest, List.head?_append, Option.mem_def.mp hc]
      rfl
    have hnot := List.head?_dropWhile_not isSpace text.toList
    rw [hhead] at hnot
    exact hnot
  · intro c hc
    rw [hname] at hc
    obtain ⟨hne, rfl⟩ := List.mem_getLast?_eq_getLast hc
    simpa using List.rdropWhile_last_not isSpace _ hne

theorem select_of_ofName?_eq_some {value : String} {level : Level}
    (h : Level.ofName? (trimmed value) = some level) :
    LogSetting.select false (some value) = ⟨level, none⟩ := by
  simp only [LogSetting.select, h, Bool.false_eq_true, if_false]

theorem select_of_ofName?_eq_none {value : String} (h : Level.ofName? (trimmed value) = none) :
    LogSetting.select false (some value) = ⟨.info, some (trimmed value)⟩ := by
  simp only [LogSetting.select, h, Bool.false_eq_true, if_false]

/-- A setting with a level selects just that level, and no other setting is without a complaint. -/
theorem selects_iff {verbose : Bool} {environment : Option String} {level : Level} :
    Selects verbose environment level ↔ LogSetting.select verbose environment = ⟨level, none⟩ := by
  constructor
  · rintro (_ | _ | ⟨htrims, hlisted⟩)
    · rfl
    · rfl
    · rw [← Level.ofName?_eq_some_iff, ← htrims.trimmed_eq] at hlisted
      exact select_of_ofName?_eq_some hlisted
  · intro h
    rcases verbose with _ | _
    · rcases environment with _ | value
      · cases h
        exact .unset
      · cases hname : Level.ofName? (trimmed value) with
        | none =>
          rw [select_of_ofName?_eq_none hname] at h
          cases h
        | some selected =>
          rw [select_of_ofName?_eq_some hname] at h
          cases h
          exact .named (trims_trimmed value) (Level.ofName?_eq_some_iff.mp hname)
    · cases h
      exact .flag

instance (verbose : Bool) (environment : Option String) (level : Level) :
    Decidable (Selects verbose environment level) := decidable_of_iff _ selects_iff.symm

theorem select_of_unnamed {value : String} (h : ∀ level, ¬ Selects false (some value) level) :
    LogSetting.select false (some value) = ⟨.info, some (trimmed value)⟩ :=
  select_of_ofName?_eq_none <| Option.eq_none_iff_forall_ne_some.mpr fun level hname =>
    h level (.named (trims_trimmed value) (Level.ofName?_eq_some_iff.mp hname))

/-! ## Cutting down -/

/-- The lines that are at least as severe as the level. -/
def cutTo (level : Level) (log : List LogLine) : List LogLine :=
  log.filter (level.severity ≤ ·.level.severity)

theorem cutTo_append (level : Level) (a b : List LogLine) :
    cutTo level (a ++ b) = cutTo level a ++ cutTo level b :=
  List.filter_append ..

/-- A line is written at a level if it remains of what is written at the lowest one. -/
theorem Level.log_eq_cutTo (selected level : Level) (message : String) :
    selected.log level message = cutTo selected (trace.log level message) := by
  have hall : trace.log level message = [LogLine.visible ⟨level, message⟩] :=
    if_pos (Nat.zero_le _)
  rw [hall, cutTo, List.filter_singleton, log]
  by_cases h : selected.severity ≤ level.severity <;> simp [LogLine.visible, h]

namespace Search

/-- The search, with its log cut down. -/
def cutTo (level : Level) (search : Search) : Search :=
  { search with log := Command.cutTo level search.log }

variable (level : Level)

theorem cutTo_append (a b : Search) :
    (a.append b).cutTo level = (a.cutTo level).append (b.cutTo level) := by
  simp only [append, cutTo, Command.cutTo_append]

theorem cutTo_foldl_append (start : Search) (searches : List Search) :
    (searches.foldl append start).cutTo level =
      (searches.map (cutTo level)).foldl append (start.cutTo level) := by
  induction searches generalizing start with
  | nil => rfl
  | cons search searches ih => rw [List.foldl_cons, ih, cutTo_append, List.map_cons, List.foldl_cons]

theorem ofFailure_eq_cutTo (root path : RawText) (error : LookupError) :
    ofFailure level root path error = (ofFailure .trace root path error).cutTo level := by
  rw [ofFailure, level.log_eq_cutTo]
  rfl

/-- The level has a say in the line about a visit, and in nothing else. -/
theorem ofVisit_eq_cutTo (extensions : List String) (root : RawText) (visit : Entry.Visit) :
    ofVisit level extensions root visit = (ofVisit .trace extensions root visit).cutTo level := by
  cases visit with
  | file path contents | directory path =>
    simp only [ofVisit]
    rw [level.log_eq_cutTo]
    rfl
  | failure path error => exact ofFailure_eq_cutTo level root path error

variable (find : RawText → Except LookupError Entry)

theorem ofPath_eq_cutTo (extensions : List String) (path : RawText) :
    ofPath level find extensions path = (ofPath .trace find extensions path).cutTo level := by
  unfold ofPath
  cases find path with
  | ok entry =>
    rw [cutTo_foldl_append, List.map_map]
    exact congrArg (List.foldl append {})
      (List.map_congr_left fun visit _ => ofVisit_eq_cutTo level extensions path visit)
  | error error => exact ofFailure_eq_cutTo level path path error

theorem fallback_eq_cutTo (extensions : List String) (paths : List RawText) :
    fallback level find extensions paths =
      (fallback .trace find extensions paths).cutTo level := by
  rcases paths with _ | ⟨path, _ | ⟨other, paths⟩⟩
  · rfl
  · unfold fallback
    simp only
    rcases find path with error | (contents | ⟨entries, closed⟩)
    · rfl
    · simp only
      rw [level.log_eq_cutTo]
      rfl
    · rfl
  · rfl

theorem ofPaths_eq_cutTo (extensions : List String) (paths : List RawText) :
    ofPaths level find extensions paths =
      (ofPaths .trace find extensions paths).cutTo level := by
  have hfound : (paths.map (ofPath level find extensions)).foldl append {} =
      ((paths.map (ofPath .trace find extensions)).foldl append {}).cutTo level := by
    rw [cutTo_foldl_append, List.map_map]
    exact congrArg (List.foldl append {})
      (List.map_congr_left fun path _ => ofPath_eq_cutTo level find extensions path)
  unfold ofPaths
  simp only
  rw [hfound, fallback_eq_cutTo, apply_ite (cutTo level), cutTo_append]
  rfl

end Search

/-- What is rendered, with its log cut down. -/
def Rendered.cutTo (level : Level) (rendered : Rendered) : Rendered :=
  { rendered with log := Command.cutTo level rendered.log }

/-- The level has a say in the line about a file, and in nothing else. -/
theorem renderFiles_eq_cutTo (level : Level) (asRequest : Bool) (files : List SourceFile) :
    renderFiles level asRequest files = (renderFiles .trace asRequest files).cutTo level := by
  induction files with
  | nil => rfl
  | cons file files ih =>
    rw [renderFiles, renderFiles, ih]
    cases renderFile asRequest file with
    | ok document =>
      simp only [Rendered.cutTo, cutTo_append]
      rw [level.log_eq_cutTo]
    | error failure => rfl

namespace RenderOptions

variable (options : RenderOptions) (level : Level)

theorem outcome_cutTo (found : Search) (rendered : Rendered) :
    options.outcome level (found.cutTo level) (rendered.cutTo level) =
      { options.outcome .trace found rendered with
        log := cutTo level (options.outcome .trace found rendered).log } := by
  simp only [outcome, Search.cutTo, Rendered.cutTo, level.log_eq_cutTo .debug,
    level.log_eq_cutTo .info]
  split <;> simp only [cutTo_append]

/-- A run at a level is the run at the lowest one with its log cut down. -/
theorem run_eq_cutTo (find : RawText → Except LookupError Entry) :
    options.run level find =
      { options.run .trace find with log := cutTo level (options.run .trace find).log } := by
  unfold run
  simp only
  rw [Search.ofPaths_eq_cutTo, renderFiles_eq_cutTo]
  exact options.outcome_cutTo level _ _

end RenderOptions

/-- The line that tells the selected level is written at the lowest level only. -/
theorem lines_eq_cutTo (level : Level) :
    (LogSetting.mk level none).lines = cutTo level (LogSetting.mk .trace none).lines := by
  cases level <;> decide

/-- The warning of a setting that names no level. -/
def unnamedLine (value : String) : LogLine :=
  LogLine.visible ⟨.warn, "Invalid `LOG_LEVEL` environment variable value: `" ++ value ++ "`"⟩

theorem lines_unnamed (value : String) :
    (LogSetting.mk .info (some value)).lines =
      unnamedLine value :: (LogSetting.mk .info none).lines := rfl

/-! ## Runs -/

theorem RenderDraft.finish_verbose {verbose : Bool} {draft : RenderDraft} {options : RenderOptions}
    (h : draft.finish verbose = .render verbose options) (other : Bool) :
    draft.finish other = .render other options := by
  unfold finish at h ⊢
  split at h
  · cases h
  · rename_i hpaths
    cases h
    exact if_neg hpaths

/-- The flag for verbose output has no say in what the arguments of `render` ask for. -/
theorem parseRender_verbose {verbose : Bool} {draft : RenderDraft} {args : List RawText}
    {options : RenderOptions} (h : parseRender verbose draft args = .render verbose options)
    (other : Bool) : parseRender other draft args = .render other options := by
  fun_induction parseRender verbose draft args <;> rw [parseRender.eq_def]
  case case1 => exact RenderDraft.finish_verbose h other
  case case2 hescape =>
    simp only [hescape]
    exact RenderDraft.finish_verbose h other
  -- the arguments are read on, or they ask for no rendering
  all_goals simp_all

theorem ofArgs_verbose {args : List RawText} {options : RenderOptions}
    (h : Invocation.ofArgs ("render" :: args) = .render false options) :
    Invocation.ofArgs ("-v" :: "render" :: args) = .render true options := by
  have hcommand : ∀ verbose, parseCommand verbose ("render" :: args) =
      parseRender verbose {} args := fun _ => rfl
  have hflag : Invocation.ofArgs ("-v" :: "render" :: args) =
      parseCommand true ("render" :: args) := rfl
  rw [Invocation.ofArgs, hcommand] at h
  rw [hflag, hcommand]
  exact parseRender_verbose h true

/-- Runs for the same options end alike whatever their log levels. The log of a run with a level is
that of the run at the lowest level without the less severe lines, and a setting that names no level
adds a warning to the log of the run without a setting. -/
theorem log_level_only_filters {args : List RawText} {options : RenderOptions}
    (h : Invocation.ofArgs ("render" :: args) = .render false options)
    (find : RawText → Except LookupError Entry) :
    Invocation.ofArgs ("-v" :: "render" :: args) = .render true options ∧
    ∃ traced unset, run ("render" :: args) (some "TRACE") find = some traced ∧
      run ("render" :: args) none find = some unset ∧
      ∀ others verbose environment, Invocation.ofArgs others = .render verbose options →
        ∃ outcome, run others environment find = some outcome ∧
          outcome.exitCode = traced.exitCode ∧ outcome.stdout = traced.stdout ∧
          outcome.stderr = traced.stderr ∧
          (∀ level, Selects verbose environment level →
            outcome.log = traced.log.filter (level.severity ≤ ·.level.severity)) ∧
          (∀ value, verbose = false → environment = some value →
            (∀ level, ¬ Selects false (some value) level) →
            outcome.log = unnamedLine (trimmed value) :: unset.log) := by
  have htraced := run_eq_of_render h (some "TRACE") find
  have hunset := run_eq_of_render h none find
  have htrace : LogSetting.select false (some "TRACE") = ⟨.trace, none⟩ := by decide
  have hinfo : LogSetting.select false none = ⟨.info, none⟩ := rfl
  rw [htrace] at htraced
  rw [hinfo] at hunset
  refine ⟨ofArgs_verbose h, _, _, htraced, hunset, fun others verbose environment hothers => ?_⟩
  have hrun := run_eq_of_render hothers environment find
  rw [options.run_eq_cutTo] at hrun
  refine ⟨_, hrun, rfl, rfl, rfl, fun level hlevel => ?_,
    fun value hverbose henvironment hunnamed => ?_⟩
  · simp only [selects_iff.mp hlevel]
    rw [lines_eq_cutTo, ← cutTo_append]
    rfl
  · subst hverbose henvironment
    simp only [select_of_unnamed hunnamed]
    rw [lines_unnamed, options.run_eq_cutTo .info]
    rfl

theorem log_level_only_filters_gone :
    let find := Entry.find (.directory [])
    let scanning : LogLine := ⟨.debug, "Scanning 1 input paths..."⟩
    let found : LogLine := ⟨.debug, "Found 0 operation description files to render."⟩
    Invocation.ofArgs ["render", "gone"] = .render false ⟨["json"], false, ["gone"]⟩ ∧
    ∃ traced flagged padded unnamed, run ["render", "gone"] (some "TRACE") find = some traced ∧
      run ["-v", "render", "gone"] (some "loud") find = some flagged ∧
      run ["render", "gone"] (some " verbose\n") find = some padded ∧
      run ["render", "gone"] (some "loud") find = some unnamed ∧
      flagged.exitCode = traced.exitCode ∧ flagged.stderr = traced.stderr ∧
      traced.log.length = 4 ∧ flagged.log = [scanning, found] ∧ padded.log = [scanning, found] ∧
      unnamed.log = [⟨.warn, "Invalid `LOG_LEVEL` environment variable value: `loud`"⟩] := by
  intro find scanning found
  have hargs : Invocation.ofArgs ["render", "gone"] = .render false ⟨["json"], false, ["gone"]⟩ := by
    decide
  obtain ⟨hflag, traced, unset, htraced, hunset, hall⟩ := log_level_only_filters hargs find
  obtain ⟨flagged, hflagged, hexit, _, hstderr, hdebug, _⟩ := hall _ true (some "loud") hflag
  obtain ⟨padded, hpadded, _, _, _, hverbose, _⟩ := hall _ false (some " verbose\n") hargs
  obtain ⟨unnamed, hunnamed, _, _, _, _, hwarned⟩ := hall _ false (some "loud") hargs
  have hlog : (run ["render", "gone"] (some "TRACE") find).map (·.log) = some [
      ⟨.trace, "Initial logging level set to `TRACE`."⟩, scanning,
      ⟨.trace, "Encountered an error while iterating recursive filesystem entities at/under " ++
        "\"gone\"."⟩, found] := by decide +kernel
  have hnone : (run ["render", "gone"] none find).map (·.log) = some [] := by decide +kernel
  rw [htraced, Option.map_some, Option.some_inj] at hlog
  rw [hunset, Option.map_some, Option.some_inj] at hnone
  refine ⟨hargs, traced, flagged, padded, unnamed, htraced, hflagged, hpadded, hunnamed, hexit,
    hstderr, by rw [hlog]; rfl, ?_, ?_, ?_⟩
  · rw [hdebug .debug .flag, hlog]
    rfl
  · rw [hverbose .debug (by decide), hlog]
    rfl
  · rw [hwarned "loud" rfl rfl (by intro level; cases level <;> decide), hnone]
    decide

end GraphDoc.Command
