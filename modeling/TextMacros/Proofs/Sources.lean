import Mathlib
import TextMacros.Proofs.Outcomes

/-!
# Sources of a run

The same bytes expand to the same text and end a run with the same status,
whether they come from a file or from the standard input. Messages differ only
for malformed bytes behind a carriage return that stands alone: it ends a row
of the standard input and none of a file.
-/

set_option autoImplicit false

namespace TextMacros

/-! ### Reading the command line -/

namespace Arguments

def withSource (source : Option Text) (a : Arguments) : Arguments := { a with source := source }

theorem take_withSource (a : Arguments) (source : Option Text) (s : Switch) (value : Text) :
    (a.withSource source).take s value = (a.take s value).map (withSource source) := by
  cases s with
  | maxDepth =>
    simp only [take]
    cases given value with
    | none => rfl
    | some text => cases hd : text.toInt? <;> simp [Except.map, hd, withSource]
  | _ => rfl

theorem takeAll_withSource (a : Arguments) (source : Option Text) (taken : List (Switch × Text)) :
    (a.withSource source).takeAll taken = (a.takeAll taken).map (withSource source) := by
  unfold takeAll
  induction taken generalizing a with
  | nil => rfl
  | cons first taken ih =>
    obtain ⟨s, value⟩ := first
    simp only [List.foldlM_cons, take_withSource]
    cases a.take s value with
    | error refusal => rfl
    | ok b => exact ih b

end Arguments

namespace Reading

theorem takeAll_withSource (r : Reading) (source : Option Text) (taken : List (Switch × Text)) :
    (r.withSource source).takeAll taken = (r.takeAll taken).map fun q => q.withSource source := by
  have h := r.arguments.takeAll_withSource source taken
  simp only [takeAll, withSource] at h ⊢
  unfold Arguments.withSource at h
  rw [h]
  cases r.arguments.takeAll taken <;> rfl

theorem source_takeAll {r q : Reading} {taken : List (Switch × Text)} (h : r.takeAll taken = .ok q) :
    q.arguments.source = r.arguments.source := by
  have hself : r.takeAll taken = (r.takeAll taken).map fun q => q.withSource r.arguments.source :=
    r.takeAll_withSource r.arguments.source taken
  rw [h] at hself
  exact congrArg (fun q => q.arguments.source) (Except.ok.inj hself)

/-- Once there is a source, the words after it are read alike whatever it is. -/
theorem words_withSource (r : Reading) (source : Text) (hr : r.arguments.source.isSome)
    (ws : List Text) : (r.withSource (some source)).words ws =
      (r.words ws).map fun q => q.withSource (some source) := by
  have hsome : (r.withSource (some source)).arguments.source.isSome := rfl
  induction r, ws using words.induct with
  | case1 r => rfl
  | case2 r rest =>
    rw [words.eq_def, words.eq_def r]
    simp only [if_true, finish, hr, hsome]
    rfl
  | case3 r w rest hsep hword ih =>
    rw [words.eq_def, words.eq_def r]
    simp only [if_neg hsep, hword]
    exact ih hr rfl
  | case4 r w rest hsep hword hsource ih =>
    rw [words.eq_def, words.eq_def r]
    simp only [if_neg hsep, hword, if_pos hr, if_pos hsome]
    exact ih hr rfl
  -- Only where there is no source yet could a word become one.
  | case5 r w hsep hword hsource | case6 r w hsep hword hsource
  | case7 r w hsep hword hsource => exact absurd hr hsource
  | case8 r w rest hsep s short attached hword refusal hcluster =>
    rw [words.eq_def, words.eq_def r]
    simp only [if_neg hsep, hword, hcluster]
    rfl
  | case9 r w rest hsep s short attached hword taken hcluster refusal htaken =>
    rw [words.eq_def, words.eq_def r]
    simp only [if_neg hsep, hword, hcluster, takeAll_withSource, htaken]
    rfl
  | case10 r w rest hsep s short attached hword taken hcluster q htaken ih =>
    rw [words.eq_def, words.eq_def r]
    simp only [if_neg hsep, hword, hcluster, takeAll_withSource, htaken]
    exact ih (source_takeAll htaken ▸ hr) rfl
  | case11 r w hsep s short attached hword taken last hcluster =>
    rw [words.eq_def, words.eq_def r]
    simp only [if_neg hsep, hword, hcluster]
    rfl
  | case12 r w hsep s short attached hword taken last hcluster value rest hvalue refusal htaken =>
    rw [words.eq_def, words.eq_def r]
    simp only [if_neg hsep, hword, hcluster, if_pos hvalue, takeAll_withSource, htaken]
    rfl
  | case13 r w hsep s short attached hword taken last hcluster value rest hvalue q htaken ih =>
    rw [words.eq_def, words.eq_def r]
    simp only [if_neg hsep, hword, hcluster, if_pos hvalue, takeAll_withSource, htaken]
    exact ih (source_takeAll htaken ▸ hr) rfl
  | case14 r w hsep s short attached hword taken last hcluster value rest hvalue =>
    rw [words.eq_def, words.eq_def r]
    simp only [if_neg hsep, hword, hcluster, if_neg hvalue]
    rfl

end Reading

theorem Word.ofText_inputMark : Word.ofText Origin.inputMark = .argument := by decide

namespace Reading

theorem words_first {w : Text} (hw : Word.ofText w = .argument) (options : List Text) :
    words ⟨{}, []⟩ (w :: options) =
      if options.head? = some Text.separator then
        .ok ((withSource ⟨{}, []⟩ (some w)).leave options.tail)
      else (withSource ⟨{}, []⟩ (some w)).words options := by
  have hsep : w ≠ Text.separator := by
    rintro rfl
    exact absurd hw (by decide)
  rw [words.eq_def]
  cases options with
  | nil => simp [hsep, hw, words]
  | cons next rest => simp [hsep, hw]

/-- A first word that is no switch is the source, and nothing else depends on it. -/
theorem words_source {w : Text} (hw : Word.ofText w = .argument) (options : List Text) :
    words ⟨{}, []⟩ (Origin.inputMark :: options) =
      (words ⟨{}, []⟩ (w :: options)).map fun q => q.withSource (some Origin.inputMark) := by
  rw [words_first hw, words_first Word.ofText_inputMark]
  split
  · rfl
  · exact words_withSource (withSource ⟨{}, []⟩ (some w)) Origin.inputMark rfl options

end Reading

namespace Arguments

/-- With either source first, the same words are read as the same options. -/
theorem read_source {w : Text} (hw : Word.ofText w = .argument) (options : List Text) :
    Arguments.read (Origin.inputMark :: options) =
      (Arguments.read (w :: options)).map (withSource (some Origin.inputMark)) := by
  unfold Arguments.read
  rw [Reading.words_source hw]
  cases Reading.words ⟨{}, []⟩ (w :: options) with
  | error refusal => rfl
  | ok q =>
    dsimp only [bind, Except.bind, Except.map, Reading.withSource]
    split <;> rfl

end Arguments

/-! ### Running with either source -/

section
variable {a : Arguments} {host : Host} {request : Request} {origin : Origin} {p : Plan} {r : Registry}

theorem Ending.after_nil (e : Ending) : e.after [] = e := rfl

theorem Arguments.expandGoal_of_text (hv : a.verbose = false)
    (hr : a.registry p.definitions = .ok r) {t : Text} (ht : origin.read request = .ok t) :
    a.expandGoal host request origin p = a.expandText host p.config r t := by
  simp [expandGoal, hr, ht, inform, hv, Ending.after_nil]

theorem Arguments.expandGoal_of_error (hv : a.verbose = false)
    (hr : a.registry p.definitions = .ok r) {e : Error} (ht : origin.read request = .error e) :
    a.expandGoal host request origin p = a.settle (.failed e) := by
  simp [expandGoal, hr, ht, inform, hv, Ending.after_nil]

end

/-- A run over malformed bytes ends with their error. -/
theorem run_of_malformed {a : Arguments} {host : Host} {request : Request} {origin : Origin}
    {p : Plan} {r : Registry} {e : Error} (hread : Arguments.read request.words = .ok a)
    (hversion : a.version = false) (hv : a.verbose = false)
    (hs : Origin.ofSource request a.source = .ok origin) (hp : a.plan = .ok p)
    (hr : a.registry p.definitions = .ok r) (he : origin.read request = .error e) :
    run host request = Ending.after request.launchWarning (a.settle (.failed e)) := by
  have hperform : a.perform host request = a.settle (.failed e) := by
    rw [Arguments.perform, if_neg (by simp [hversion]), hs, hp]
    exact a.expandGoal_of_error hv hr he
  rw [run, hread]
  exact congrArg _ hperform

section
variable {a : Arguments} {host : Host} {request request' : Request} {source : Text} {b : Bytes}

/-- Both goals are the same, up to the place where malformed bytes are met. -/
theorem expandGoal_sources (hv : a.verbose = false) (hi : request'.standardInput = b)
    (path : Path) (p : Plan) :
    (a.withSource (some Origin.inputMark)).expandGoal host request' .standardInput p =
        a.expandGoal host request (.file path b) p ∨
      ∃ f, Utf8.decode b = .error f ∧ ¬b.ReturnsPaired f.start ∧
        a.expandGoal host request (.file path b) p =
          a.settle (.failed (malformedRows 0 b.fileRows f)) ∧
        (a.withSource (some Origin.inputMark)).expandGoal host request' .standardInput p =
          a.settle (.failed (malformedRows 0 b.rows f)) := by
  have hread : Origin.read request (.file path b) =
      (Utf8.decode b).mapError (malformedRows 0 b.fileRows) := decodeFile_eq b
  have hread' : Origin.read request' .standardInput =
      (Utf8.decode b).mapError (malformedRows 0 b.rows) := hi ▸ decode_bytes_eq _
  have hv' : (a.withSource (some Origin.inputMark)).verbose = false := hv
  cases hr : a.registry p.definitions with
  | error i =>
    have hr' : (a.withSource (some Origin.inputMark)).registry p.definitions = .error i := hr
    refine .inl ?_
    rw [Arguments.expandGoal, Arguments.expandGoal, hr, hr']
    rfl
  | ok r =>
    have hr' : (a.withSource (some Origin.inputMark)).registry p.definitions = .ok r := hr
    cases hd : Utf8.decode b with
    | ok t =>
      rw [hd] at hread hread'
      rw [Arguments.expandGoal_of_text hv hr hread, Arguments.expandGoal_of_text hv' hr' hread']
      exact .inl rfl
    | error f =>
      rw [hd] at hread hread'
      rw [Arguments.expandGoal_of_error hv hr hread, Arguments.expandGoal_of_error hv' hr' hread']
      by_cases hpaired : b.ReturnsPaired f.start
      · rw [malformedRows_of_paired hd hpaired]
        exact .inl rfl
      · exact .inr ⟨f, rfl, hpaired, rfl, rfl⟩

theorem Origin.ofSource_file (hn : source ≠ inputMark) (hf : request.file (Path.ofText source) = some b) :
    ofSource request (some source) = .ok (.file (Path.ofText source) b) := by
  rw [ofSource, if_neg hn]
  simp only [hf]

theorem perform_sources (host : Host) (hs : a.source = some source) (hv : a.verbose = false)
    (hn : source ≠ Origin.inputMark) (hf : request.file (Path.ofText source) = some b)
    (hi : request'.standardInput = b) :
    (a.withSource (some Origin.inputMark)).perform host request' = a.perform host request ∨
      ∃ f, Utf8.decode b = .error f ∧ ¬b.ReturnsPaired f.start ∧
        a.perform host request = a.settle (.failed (malformedRows 0 b.fileRows f)) ∧
        (a.withSource (some Origin.inputMark)).perform host request' =
          a.settle (.failed (malformedRows 0 b.rows f)) := by
  have hfile : Origin.ofSource request a.source = .ok (.file (Path.ofText source) b) :=
    hs ▸ Origin.ofSource_file hn hf
  have hinput : Origin.ofSource request' (a.withSource (some Origin.inputMark)).source =
      .ok .standardInput := rfl
  have hplan : (a.withSource (some Origin.inputMark)).plan = a.plan := rfl
  have hversion : (a.withSource (some Origin.inputMark)).version = a.version := rfl
  rw [Arguments.perform, Arguments.perform, hfile, hinput, hplan, hversion]
  split
  · exact .inl rfl
  · cases a.plan with
    | error e => exact .inl rfl
    | ok p => exact expandGoal_sources hv hi (Path.ofText source) p

theorem launchWarning_of_program (hp : request'.program = request.program) :
    request'.launchWarning = request.launchWarning := by
  unfold Request.launchWarning Request.fromSource Request.launchedAs
  rw [hp]

theorem refuse_of_program (hp : request'.program = request.program) (refusal : Refusal) :
    request'.refuse refusal = request.refuse refusal := by
  unfold Request.refuse Request.usage Request.shownAs Request.fromSource Request.launchedAs
  rw [hp]

theorem Incident.settle_failed_alike (friendly : Bool) (e e' : Error) :
    ((failed e).settle friendly).status = ((failed e').settle friendly).status ∧
      ((failed e).settle friendly).output = ((failed e').settle friendly).output := by
  cases friendly <;> exact ⟨rfl, rfl⟩

end

/-- Whether the bytes come from a file or from the standard input, a run ends
with the same status and the same output, and in the same way altogether
unless the bytes are malformed behind a carriage return that stands alone.
Then each run tells the place as its own rows have it. -/
theorem run_file_or_input (host : Host) {request request' : Request} {source : Text} {b : Bytes}
    (hp : request'.program = request.program)
    (hr : Arguments.read request'.words =
      (Arguments.read request.words).map (Arguments.withSource (some Origin.inputMark)))
    (hs : ∀ a, Arguments.read request.words = .ok a → a.source = some source ∧ a.verbose = false)
    (hn : source ≠ Origin.inputMark) (hf : request.file (Path.ofText source) = some b)
    (hi : request'.standardInput = b) :
    (run host request').status = (run host request).status ∧
    (run host request').output = (run host request).output ∧
    (run host request' = run host request ∨
      ∃ a f, Arguments.read request.words = .ok a ∧ Utf8.decode b = .error f ∧
        ¬b.ReturnsPaired f.start ∧
        run host request = Ending.after request.launchWarning
          (a.settle (.failed (malformedRows 0 b.fileRows f))) ∧
        run host request' = Ending.after request.launchWarning
          (a.settle (.failed (malformedRows 0 b.rows f)))) := by
  cases hread : Arguments.read request.words with
  | error refusal =>
    rw [hread] at hr
    have hrun : run host request' = run host request := by
      rw [run, run, hr, hread, launchWarning_of_program hp]
      exact congrArg _ (refuse_of_program hp refusal)
    rw [hrun]
    exact ⟨rfl, rfl, .inl rfl⟩
  | ok a =>
    rw [hread] at hr
    obtain ⟨hsource, hv⟩ := hs a hread
    have hrun : run host request = Ending.after request.launchWarning (a.perform host request) := by
      rw [run, hread]
    have hrun' : run host request' = Ending.after request.launchWarning
        ((a.withSource (some Origin.inputMark)).perform host request') := by
      rw [run, hr, launchWarning_of_program hp]
      rfl
    rw [hrun, hrun']
    obtain hsame | ⟨f, hd, hunpaired, hfile, hinput⟩ :=
      perform_sources host hsource hv hn hf hi
    · rw [hsame]
      exact ⟨rfl, rfl, .inl rfl⟩
    · rw [hfile, hinput]
      obtain ⟨hstatus, houtput⟩ := Incident.settle_failed_alike a.friendlyErrors
        (malformedRows 0 b.rows f) (malformedRows 0 b.fileRows f)
      exact ⟨hstatus, houtput, .inr ⟨a, f, rfl, hd, hunpaired, rfl, rfl⟩⟩

/-- A letter, a carriage return, and a byte that begins no sequence. -/
def returnSample : Bytes := [0x61, 0x0D, 0xFF]

def nameSample : Text := "a.txt"

def fileSample : Request where
  program := "macrox"
  words := [nameSample]
  file p := if p = Path.ofText nameSample then some returnSample else none
  standardInput := []

def inputSample : Request where
  program := "macrox"
  words := ["-"]
  file _ := none
  standardInput := returnSample

theorem fileSample_read : Arguments.read fileSample.words = .ok { source := some nameSample } := by rfl

theorem fileSample_source (a : Arguments) (h : Arguments.read fileSample.words = .ok a) :
    a.source = some nameSample ∧ a.verbose = false := by
  obtain rfl := Except.ok.inj (fileSample_read.symm.trans h)
  exact ⟨rfl, rfl⟩

theorem fileSample_file : fileSample.file (Path.ofText nameSample) = some returnSample := by
  simp [fileSample]

theorem inputSample_read : Arguments.read inputSample.words =
    (Arguments.read fileSample.words).map (Arguments.withSource (some Origin.inputMark)) :=
  Arguments.read_source (by decide) []

theorem run_file_or_input_sample :
    inputSample.program = fileSample.program ∧
      (∀ a, Arguments.read fileSample.words = .ok a → a.source = some nameSample ∧ a.verbose = false) ∧
      (run ⟨[], [], [], []⟩ inputSample).status = (run ⟨[], [], [], []⟩ fileSample).status ∧
      (run ⟨[], [], [], []⟩ inputSample).output = (run ⟨[], [], [], []⟩ fileSample).output ∧
      (run ⟨[], [], [], []⟩ inputSample = run ⟨[], [], [], []⟩ fileSample ∨
        ∃ a f, Arguments.read fileSample.words = .ok a ∧ Utf8.decode returnSample = .error f ∧
          ¬returnSample.ReturnsPaired f.start ∧
          run ⟨[], [], [], []⟩ fileSample = Ending.after fileSample.launchWarning
            (a.settle (.failed (malformedRows 0 returnSample.fileRows f))) ∧
          run ⟨[], [], [], []⟩ inputSample = Ending.after fileSample.launchWarning
            (a.settle (.failed (malformedRows 0 returnSample.rows f)))) := by
  have hprogram : inputSample.program = fileSample.program := rfl
  have hname : nameSample ≠ Origin.inputMark := by decide
  have hinput : inputSample.standardInput = returnSample := rfl
  exact ⟨hprogram, fileSample_source, run_file_or_input ⟨[], [], [], []⟩ hprogram inputSample_read
    fileSample_source hname fileSample_file hinput⟩

/-- A carriage return that stands alone moves a failure to the next row of the
standard input, but not of a file. -/
theorem run_not_file_or_input :
    ¬∀ (host : Host) (request request' : Request) (source : Text) (b : Bytes),
      request'.program = request.program →
      Arguments.read request'.words =
        (Arguments.read request.words).map (Arguments.withSource (some Origin.inputMark)) →
      (∀ a, Arguments.read request.words = .ok a → a.source = some source ∧ a.verbose = false) →
      source ≠ Origin.inputMark → request.file (Path.ofText source) = some b →
      request'.standardInput = b →
      (run host request').status = (run host request).status ∧
        (run host request').output = (run host request).output ∧
        (run host request').messages = (run host request).messages := by
  intro h
  obtain ⟨-, -, hmessages⟩ := h ⟨[], [], [], []⟩ fileSample inputSample nameSample returnSample rfl
    inputSample_read fileSample_source (by decide) fileSample_file rfl
  have hfile : decodeFile returnSample =
      .error (.malformedText ⟨0, 2, .text⟩ "invalid start byte") := by cbv
  have hinput : (Input.bytes returnSample).decode =
      .error (.malformedText ⟨1, 0, .text⟩ "invalid start byte") := by cbv
  have hrun : run ⟨[], [], [], []⟩ fileSample =
      .fatal (Error.malformedText ⟨0, 2, .text⟩ "invalid start byte").message := by
    exact run_of_malformed fileSample_read rfl rfl (Origin.ofSource_file (by decide) fileSample_file)
      rfl rfl hfile
  have hrun' : run ⟨[], [], [], []⟩ inputSample =
      .fatal (Error.malformedText ⟨1, 0, .text⟩ "invalid start byte").message := by
    exact run_of_malformed inputSample_read rfl rfl rfl rfl rfl hinput
  -- The row is the forty-first code point of either message.
  rw [hrun, hrun'] at hmessages
  have hrow := congrArg (fun t => t[40]?) hmessages
  exact absurd hrow (by decide)

end TextMacros
