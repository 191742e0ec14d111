import Scriptlet.CommandLine
import Scriptlet.Proofs.Session.Reorder
import Scriptlet.Proofs.Session.Safety
import Scriptlet.Proofs.Text.Utf8

/-!
# Which failures the command reports

For a file that can be read, the command ends with status zero exactly if the bytes are the text of
a program, the program runs to its end, and what it prints is taken. Faults of a program are
reported under the name of the file, with status one. Four kinds of trouble end the command without
a report, and no others (`failures_reported`):

* bytes that are no text;
* a limit on the depth of the stack that is no number of the system;
* a standard output that refuses what the program prints;
* integers with too many digits.

This is so on every system, whatever its stack holds and its standard output takes: `Ends` says how
a program ends with the levels of nesting that the system has for it.

A log, if one is asked for, comes before the report and makes no other difference: nothing that a
run does depends on whether events are recorded (`run_start`).
-/

namespace Scriptlet

open Text

namespace Session

open Eval

/-- Nothing in a run looks at the events recorded. -/
theorem run_ignores_trace (limit : Nat) (source : String) (argv : List String) :
    traceless.Mirrors id (run limit source argv) (run limit source argv) := by
  have hreading : traceless.Mirrors id (reading limit source) (reading limit source) := by
    refine interleave_erases (fun node => Composed.ignores_trace ?_) _ _
    exact (register_composed limit node).bind fun e => (Composed.ask _).bind fun name => .note _
  exact hreading.next fun _ => (runMain_composed limit argv).ignores_trace

/-- A run that records nothing comes to what a run that records comes to. -/
theorem run_start (limit : Nat) (source : String) (argv : List String) (tracing : Bool) :
    run limit source argv (start false) =
      traceless.outcome id (run limit source argv (start tracing)) :=
  (run_ignores_trace limit source argv).outcome_eq (start tracing)

/-- A run on a new session fails with a fault of the language or an exhausted limit only. -/
theorem kind_ne_unsupported_of_run {limit : Nat} {source : String} {argv : List String}
    {tracing : Bool} {fault : Fault} {m : Machine}
    (h : run limit source argv (start tracing) = .error fault m) : fault.kind ≠ .unsupported := by
  have hdoes := run_does serves_permit (fun _ _ => Or.inl) limit source argv
    (sound_start tracing).store
  exact (ne_of_admits (hdoes.of_error h).2).1

end Session

namespace CommandLine

variable {system : System} {env : Environment} {bytes : List Nat} {source path : String}
  {args : List String} {verbose : Bool} {cs : List Char} {fault : Fault} {m : Machine}
  {ended : EStateM.Result Fault Machine Unit}

/-- The bytes are the text of a program; lines may end in any of the usual ways. -/
def Spells (bytes : List Nat) (source : String) : Prop :=
  ∃ cs, bytes = Utf8.encode cs ∧ source = String.ofList (Utf8.unixNewlines cs)

/-- How a program ends on a system, if all that it prints is taken. -/
def result (system : System) (env : Environment) (source : String) (args : List String) :
    EStateM.Result Fault Machine Unit :=
  Session.run (system.levels (Settings.recursionLimit env).toNat) source args (Session.start false)

/-- The system has the limit on the depth of its stack that is asked for, the bytes are the text of
a program, and it ends so. -/
def Ends (system : System) (env : Environment) (bytes : List Nat) (args : List String)
    (ended : EStateM.Result Fault Machine Unit) : Prop :=
  Settings.recursionLimit env ≤ greatestLimit ∧
    ∃ source, Spells bytes source ∧ result system env source args = ended

/-- Standard output takes a text. -/
def System.Takes (system : System) (text : String) : Prop := system.refusal? text = none

/-- The machine that a run leaves. -/
def left : EStateM.Result Fault Machine Unit → Machine
  | .ok _ m => m
  | .error _ m => m

/-- Is a log written? -/
def isLogging (env : Environment) (verbose : Bool) : Bool :=
  verbose || Settings.logLevel env == .debug

/-- The word for a family of faults in a report. -/
def title : Fault.Kind → String
  | .reading => "SyntaxError"
  | .reference => "ReferenceError"
  | .overflow => "FatalError"
  | _ => "RuntimeError"

/-- The report of a fault under the name of a file. -/
def diagnosis (path : String) (fault : Fault) : String :=
  path ++ ": " ++ title fault.kind ++ ": " ++ fault.message ++ "\n"

/-- What the command does with the bytes of a file and the arguments of a program: how it ends and
what it reports, under the name `path`, and whether it writes a log. -/
structure Reports (system : System) (env : Environment) (bytes : List Nat) (args : List String)
    (path : String) (logging : Bool) (o : Outcome) : Prop where
  /-- Status zero: the program has run to its end. -/
  completed : o.ending = .exit 0 ↔
    ∃ m, Ends system env bytes args (.ok () m) ∧ system.Takes m.output
  /-- Status one: the program has failed, and the fault is reported, after the log if there is
  one. -/
  failed : ∀ fault m, Ends system env bytes args (.error fault m) → system.Takes m.output →
    fault.kind ≠ .digits → o.ending = .exit 1 ∧ fault.kind ≠ .unsupported ∧
      ∃ log, o.report = log ++ diagnosis path fault ∧ (logging = false → log = "")
  undecodable : (∃ place, o.ending = .escaped (.undecodable place)) ↔
    ∀ source, ¬ Spells bytes source
  limitTooLarge : o.ending = .escaped .limitTooLarge ↔
    (∃ source, Spells bytes source) ∧ greatestLimit < Settings.recursionLimit env
  unwritable : o.ending = .escaped .unwritable ↔
    ∃ ended, Ends system env bytes args ended ∧ ¬ system.Takes (left ended).output
  digits : ∀ fault, o.ending = .escaped (.fault fault) ↔
    ∃ m, Ends system env bytes args (.error fault m) ∧ system.Takes m.output ∧
      fault.kind = .digits

theorem faultReport?_of_kind_ne (h : fault.kind ≠ .digits) :
    faultReport? path fault = some (diagnosis path fault) := by
  unfold faultReport? diagnosis
  cases hkind : fault.kind with
  | digits => exact absurd hkind h
  | _ => rfl

theorem faultReport?_of_kind_eq (h : fault.kind = .digits) : faultReport? path fault = none := by
  unfold faultReport?
  rw [h]
  rfl

theorem spells_iff (h : Utf8.decode bytes = .ok cs) :
    Spells bytes source ↔ source = String.ofList (Utf8.unixNewlines cs) := by
  have hcs := Utf8.decode_eq_ok_iff.mp h
  constructor
  · rintro ⟨ds, hds, rfl⟩
    have hdecode := Utf8.decode_eq_ok_iff.mpr hds
    rw [h] at hdecode
    cases hdecode
    rfl
  · rintro rfl
    exact ⟨cs, hcs, rfl⟩

theorem not_spells {place : Utf8.Break} (h : Utf8.decode bytes = .error place) :
    ¬ Spells bytes source := by
  rintro ⟨cs, hcs, -⟩
  rw [Utf8.decode_eq_ok_iff.mpr hcs] at h
  cases h

/-- Where there is one program in a file, how it ends decides. -/
theorem ends_iff (h : ∀ s, Spells bytes s ↔ s = source) :
    Ends system env bytes args ended ↔
      Settings.recursionLimit env ≤ greatestLimit ∧ result system env source args = ended := by
  simp only [Ends, h, exists_eq_left]

/-! ## Runs with and without a log -/

theorem run_of_result_ok (h : result system env source args = .ok () m) (tracing : Bool) :
    ∃ m', Session.run (system.levels (Settings.recursionLimit env).toNat) source args
        (Session.start tracing) = .ok () m' ∧ m'.output = m.output := by
  rw [result, Session.run_start _ _ _ tracing] at h
  cases hr : Session.run (system.levels (Settings.recursionLimit env).toNat) source args
      (Session.start tracing) with
  | ok u m' =>
    rw [hr] at h
    injection h with _ hm
    exact ⟨m', rfl, by rw [← hm]; rfl⟩
  | error f m' =>
    rw [hr] at h
    cases h

theorem run_of_result_error (h : result system env source args = .error fault m) (tracing : Bool) :
    ∃ m', Session.run (system.levels (Settings.recursionLimit env).toNat) source args
        (Session.start tracing) = .error fault m' ∧ m'.output = m.output ∧
      (tracing = false → m'.events = []) := by
  have hstart := Session.run_start (system.levels (Settings.recursionLimit env).toNat) source args
    tracing
  rw [result, hstart] at h
  cases hr : Session.run (system.levels (Settings.recursionLimit env).toNat) source args
      (Session.start tracing) with
  | ok u m' =>
    rw [hr] at h
    cases h
  | error f m' =>
    rw [hr] at h
    injection h with hf hm
    obtain rfl : f = fault := hf
    refine ⟨m', rfl, by rw [← hm]; rfl, ?_⟩
    rintro rfl
    -- without a record the run is its own image, and that has no events
    rw [hr] at hstart
    injection hstart with _ hm
    rw [hm]
    rfl

/-! ## Standard output -/

theorem unlessRefused_of_takes (h : system.Takes m.output) (o : Outcome) :
    unlessRefused system m o = o := by
  unfold unlessRefused
  rw [h]

theorem ending_unlessRefused (h : ¬ system.Takes m.output) (o : Outcome) :
    (unlessRefused system m o).ending = .escaped .unwritable := by
  unfold unlessRefused
  split
  · next hnone => exact absurd hnone h
  · rfl

/-! ## Programs -/

theorem runSource_of_large (h : greatestLimit < Settings.recursionLimit env) (verbose : Bool)
    (path : String) :
    (runSource system env verbose path source args).ending = .escaped .limitTooLarge := by
  unfold runSource
  dsimp only
  rw [if_pos h]

section

variable (hlimit : Settings.recursionLimit env ≤ greatestLimit)

include hlimit

/-- The outcome of a run to the end, if standard output takes it. -/
theorem runSource_of_run_ok
    (h : Session.run (system.levels (Settings.recursionLimit env).toNat) source args
      (Session.start (isLogging env verbose)) = .ok () m) (path : String) :
    ∃ report, runSource system env verbose path source args =
      unlessRefused system m ⟨.exit 0, m.output, report⟩ := by
  unfold runSource
  unfold isLogging at h
  dsimp only
  rw [if_neg (Int.not_lt.mpr hlimit), h]
  exact ⟨_, rfl⟩

section

variable (h : Session.run (system.levels (Settings.recursionLimit env).toNat) source args
  (Session.start (isLogging env verbose)) = .error fault m)

include h

/-- The outcome of a run with a fault of the program, if standard output takes what was printed. -/
theorem runSource_of_run_reported {report : String}
    (hreport : faultReport? path fault = some report) :
    runSource system env verbose path source args =
      unlessRefused system m ⟨.exit 1, m.output, log m.events ++ report⟩ := by
  unfold runSource
  unfold isLogging at h
  dsimp only
  rw [if_neg (Int.not_lt.mpr hlimit), h]
  dsimp only
  rw [hreport]

/-- The outcome of a run with any other fault, if standard output takes what was printed. -/
theorem runSource_of_run_unreported (hreport : faultReport? path fault = none) :
    runSource system env verbose path source args =
      unlessRefused system m ⟨.escaped (.fault fault), m.output, log m.events⟩ := by
  unfold runSource
  unfold isLogging at h
  dsimp only
  rw [if_neg (Int.not_lt.mpr hlimit), h]
  dsimp only
  rw [hreport]

end

theorem runSource_of_ok (h : result system env source args = .ok () m)
    (htakes : system.Takes m.output) (verbose : Bool) (path : String) :
    (runSource system env verbose path source args).ending = .exit 0 := by
  obtain ⟨m', hrun, houtput⟩ := run_of_result_ok h (isLogging env verbose)
  obtain ⟨report, heq⟩ := runSource_of_run_ok hlimit hrun path
  rw [← houtput] at htakes
  rw [heq, unlessRefused_of_takes htakes]

theorem runSource_of_error (h : result system env source args = .error fault m)
    (htakes : system.Takes m.output) (hkind : fault.kind ≠ .digits) (verbose : Bool)
    (path : String) :
    (runSource system env verbose path source args).ending = .exit 1 ∧
      ∃ log, (runSource system env verbose path source args).report =
        log ++ diagnosis path fault ∧ (isLogging env verbose = false → log = "") := by
  obtain ⟨m', hrun, houtput, hevents⟩ := run_of_result_error h (isLogging env verbose)
  rw [← houtput] at htakes
  rw [runSource_of_run_reported hlimit hrun (faultReport?_of_kind_ne hkind),
    unlessRefused_of_takes htakes]
  refine ⟨rfl, _, rfl, ?_⟩
  intro hquiet
  rw [hevents hquiet]
  rfl

theorem runSource_of_digits (h : result system env source args = .error fault m)
    (htakes : system.Takes m.output) (hkind : fault.kind = .digits) (verbose : Bool)
    (path : String) :
    (runSource system env verbose path source args).ending = .escaped (.fault fault) := by
  obtain ⟨m', hrun, houtput, -⟩ := run_of_result_error h (isLogging env verbose)
  rw [← houtput] at htakes
  rw [runSource_of_run_unreported hlimit hrun (faultReport?_of_kind_eq hkind),
    unlessRefused_of_takes htakes]

theorem runSource_of_refused (h : result system env source args = ended)
    (hrefuses : ¬ system.Takes (left ended).output) (verbose : Bool) (path : String) :
    (runSource system env verbose path source args).ending = .escaped .unwritable := by
  cases ended with
  | ok u m =>
    obtain ⟨m', hrun, houtput⟩ := run_of_result_ok h (isLogging env verbose)
    obtain ⟨report, heq⟩ := runSource_of_run_ok hlimit hrun path
    rw [heq]
    exact ending_unlessRefused (houtput ▸ hrefuses) _
  | error fault m =>
    obtain ⟨m', hrun, houtput, -⟩ := run_of_result_error h (isLogging env verbose)
    cases hreport : faultReport? path fault with
    | some report =>
      rw [runSource_of_run_reported hlimit hrun hreport]
      exact ending_unlessRefused (houtput ▸ hrefuses) _
    | none =>
      rw [runSource_of_run_unreported hlimit hrun hreport]
      exact ending_unlessRefused (houtput ▸ hrefuses) _

end

/-- What comes of the one program in a file. -/
theorem runSource_reports (h : ∀ s, Spells bytes s ↔ s = source) (verbose : Bool)
    (path : String) :
    Reports system env bytes args path (isLogging env verbose)
      (runSource system env verbose path source args) := by
  by_cases hlimit : Settings.recursionLimit env ≤ greatestLimit
  · have hsmall := Int.not_lt.mpr hlimit
    cases hresult : result system env source args with
    | ok u m =>
      by_cases htakes : system.Takes m.output
      · have hending := runSource_of_ok hlimit hresult htakes verbose path
        constructor <;> simp [ends_iff h, h, hlimit, hsmall, hresult, htakes, hending, left]
      · have hending := runSource_of_refused hlimit hresult htakes verbose path
        constructor <;> simp [ends_iff h, h, hlimit, hsmall, hresult, htakes, hending, left]
    | error fault m =>
      by_cases htakes : system.Takes m.output
      · by_cases hkind : fault.kind = .digits
        · have hending := runSource_of_digits hlimit hresult htakes hkind verbose path
          constructor <;>
            simp [ends_iff h, h, hlimit, hsmall, hresult, htakes, hkind, hending, left]
        · obtain ⟨hending, hreport⟩ := runSource_of_error hlimit hresult htakes hkind verbose path
          have hsupported := Session.kind_ne_unsupported_of_run hresult
          constructor <;> simp [ends_iff h, h, hlimit, hsmall, hresult, htakes, hkind, hsupported,
            hending, hreport, left]
      · have hending := runSource_of_refused hlimit hresult htakes verbose path
        constructor <;> simp [ends_iff h, h, hlimit, hsmall, hresult, htakes, hending, left]
  · have hlarge := Int.not_le.mp hlimit
    have hending : (runSource system env verbose path source args).ending = _ :=
      runSource_of_large hlarge verbose path
    constructor <;> simp [ends_iff h, h, hlimit, hlarge, hending]

/-! ## Files -/

theorem runFile_of_decode_error {place : Utf8.Break} (h : Utf8.decode bytes = .error place)
    (verbose : Bool) (file : Path) :
    (runFile system env verbose file (.ok bytes) args).ending = .escaped (.undecodable place) := by
  unfold runFile
  dsimp only
  rw [h]

theorem runFile_of_decode_ok (h : Utf8.decode bytes = .ok cs) (verbose : Bool) (file : Path) :
    runFile system env verbose file (.ok bytes) args =
      runSource system env verbose file.text (String.ofList (Utf8.unixNewlines cs)) args := by
  unfold runFile
  dsimp only
  rw [h]

/-- For every file that can be read, whatever its bytes, and all arguments of the program: the
command ends with status zero exactly if the program runs to its end, reports every fault of a
program but one about the digits of an integer, and ends without a report exactly if there is no
program, no such limit on the stack, no room for the output, or a fault of that one kind. -/
theorem failures_reported (system : System) (env : Environment)
    (content : Path → Except ReadFailure (List Nat)) (verbose : Bool) (file : String)
    (args : List String) (bytes : List Nat) (readable : content (Path.ofText file) = .ok bytes) :
    Reports system env bytes args (Path.ofText file).text (isLogging env verbose)
      (respond env content (.run verbose file args) system) := by
  rw [respond, readable]
  cases hdecode : Utf8.decode bytes with
  | error place =>
    have hnone : ∀ source, ¬ Spells bytes source := fun _ => not_spells hdecode
    have hending : (runFile system env verbose (.ofText file) (.ok bytes) args).ending = _ :=
      runFile_of_decode_error hdecode verbose _
    constructor <;> simp [Ends, hnone, hending]
  | ok cs =>
    rw [runFile_of_decode_ok hdecode]
    exact runSource_reports (fun _ => spells_iff hdecode) verbose _

/-- A name alone is no program. The text is not nested deeply, so it does not matter how much deeper
it might be. -/
theorem result_of_lone_name :
    ∃ m, result .plain [] "//é\nb" [] = .error (.misread .expectedDeclaration ⟨2, 1⟩) m := by
  have hshown : ∀ k, Session.shown (Session.run (k + 20) "//é\nb" [] (Session.start false)) =
      (some (.misread .expectedDeclaration ⟨2, 1⟩), "") := by
    intro k
    cbv
  have hlevels : System.plain.levels (Settings.recursionLimit []).toNat = 9980 + 20 := by decide
  have hend := hshown 9980
  rw [result, hlevels]
  cases hr : Session.run (9980 + 20) "//é\nb" [] (Session.start false) with
  | ok u m =>
    rw [hr] at hend
    cases hend
  | error f m =>
    rw [hr] at hend
    injection hend with hfault
    injection hfault with hfault
    exact ⟨m, by rw [hfault]⟩

/-- A comment with a letter of two bytes, a line end of two characters, and a name where a
declaration should be: the name is reported with its line. -/
theorem lone_name_reported :
    let bytes := [0x2f, 0x2f, 0xc3, 0xa9, 0x0d, 0x0a, 0x62]
    let content : Path → Except ReadFailure (List Nat) := fun _ => .ok bytes
    let o := respond [] content (.run false "./p.scrap" []) .plain
    content (Path.ofText "./p.scrap") = .ok bytes ∧ o.ending = .exit 1 ∧
      o.report = "p.scrap: SyntaxError: " ++
        "Expected a declaration (fn, const, var or module) (line 2, column 1)\n" := by
  intro bytes content o
  have hspells : Spells bytes "//é\nb" := ⟨"//é\r\nb".toList, by decide, by decide⟩
  obtain ⟨m, hresult⟩ := result_of_lone_name
  have hends : Ends .plain [] bytes [] (.error (.misread .expectedDeclaration ⟨2, 1⟩) m) :=
    ⟨by decide, _, hspells, hresult⟩
  have hreadable : content (Path.ofText "./p.scrap") = .ok bytes := rfl
  have hreports := failures_reported .plain [] content false "./p.scrap" [] bytes hreadable
  obtain ⟨hending, -, log, hreport, hlog⟩ := hreports.failed _ _ hends rfl (by decide)
  have hquiet : isLogging [] false = false := by cbv
  have hpath : (Path.ofText "./p.scrap").text = "p.scrap" := by cbv
  refine ⟨hreadable, hending, ?_⟩
  rw [hreport, hlog hquiet, diagnosis, hpath]
  decide

/-- A byte that begins no character ends the command without a report. -/
theorem undecodable_file_not_reported :
    respond [] (fun _ => .ok [0xff]) (.run false "p.scrap" []) .plain =
      ⟨.escaped (.undecodable ⟨.badStart, 0xff, 0, 1⟩), "", ""⟩ := by
  have hdecode : Utf8.decode [0xff] = .error ⟨.badStart, 0xff, 0, 1⟩ := by cbv
  rw [respond, runFile, hdecode]

end CommandLine

end Scriptlet
