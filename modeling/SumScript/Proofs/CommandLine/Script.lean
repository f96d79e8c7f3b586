import SumScript.CommandLine.Response
import SumScript.FileTree
import SumScript.Proofs.Execute.Logged
import SumScript.Proofs.Execute.OneLine

/-!
# Scripts

A command line that names a script does with its text what `execute` does, and shows it
(`Response.ofSource_output`, `Response.ofSource_status`, `Response.notes_ofSource`).
The printed lines come out as one text, and since no line holds a line end, they can be
found in it again (`splitOn_linesText`).  The error, if there is one, is the last line of
the other stream.

Nothing is assumed of the files: a way to read them gives bytes or gives none, and the
bytes are those of a text or of none (`bind_fromUTF8?_eq_some_iff`).  A file tree is one
such way.  What is at a path is said by `FileTree.node?`, without reading: nothing, a
directory or bytes.  Only bytes are read (`FileTree.read?_eq_some_iff`).
-/

namespace SumScript

/-! ## Texts -/

theorem fromUTF8?_eq_some_iff {bytes : ByteArray} {text : String} :
    String.fromUTF8? bytes = some text ↔ bytes = text.toUTF8 := by
  unfold String.fromUTF8?
  constructor
  · intro h
    split at h
    next => exact congrArg String.toUTF8 (Option.some.inj h)
    next => cases h
  · rintro rfl
    exact dif_pos text.isValidUTF8

/-- What was read is the text whose bytes it is. -/
theorem bind_fromUTF8?_eq_some_iff {content : Option ByteArray} {text : String} :
    content.bind String.fromUTF8? = some text ↔ content = some text.toUTF8 := by
  simp [Option.bind_eq_some_iff, fromUTF8?_eq_some_iff]

/-- Nothing was read, or bytes that are those of no text. -/
theorem bind_fromUTF8?_eq_none_iff {content : Option ByteArray} :
    content.bind String.fromUTF8? = none ↔ ∀ text : String, content ≠ some text.toUTF8 := by
  simp only [Option.eq_none_iff_forall_ne_some, ne_eq, bind_fromUTF8?_eq_some_iff]

theorem isScriptPath_iff {path : String} :
    isScriptPath path ↔ ".push".toList <:+ path.toList :=
  List.isSuffixOf_iff_suffix

/-! ## Files -/

namespace FileTree

/-- What is at a place: its own entry, or a directory if it is on the way to others. -/
def nodeAt? (tree : FileTree) (names : List String) : Option Node :=
  match tree.entries.find? (·.1 == names) with
  | some (_, node) => some node
  | none => if tree.isDirectory names then some .directory else none

/-- What is at a written path; none if nothing is. -/
def node? (tree : FileTree) (path : String) : Option Node := (tree.place? path).bind tree.nodeAt?

theorem file?_eq_some_iff {tree : FileTree} {names : List String} {content : ByteArray} :
    tree.file? names = some content ↔ tree.nodeAt? names = some (.file content) := by
  unfold file? nodeAt?
  cases tree.entries.find? (·.1 == names) with
  | none => cases tree.isDirectory names <;> simp
  | some entry =>
      obtain ⟨_, node⟩ := entry
      cases node <;> simp

/-- A path is read if a file is there, and then its bytes are. -/
theorem read?_eq_some_iff {tree : FileTree} {path : String} {content : ByteArray} :
    tree.read? path = some content ↔ tree.node? path = some (.file content) := by
  simp only [read?, node?, Option.bind_eq_some_iff, file?_eq_some_iff]

/-- There is no text at a path: nothing is there, or a directory, or bytes that are those
of no text. -/
inductive NoText (tree : FileTree) (path : String) : Prop where
  | missing (h : tree.node? path = none)
  | directory (h : tree.node? path = some .directory)
  | bytes {content : ByteArray} (h : tree.node? path = some (.file content))
      (hbytes : ∀ text : String, content ≠ text.toUTF8)

theorem noText_iff {tree : FileTree} {path : String} :
    tree.NoText path ↔ ∀ text : String, tree.read? path ≠ some text.toUTF8 := by
  simp only [ne_eq, read?_eq_some_iff]
  constructor
  · rintro (h | h | ⟨h, hbytes⟩) text
    · simp [h]
    · simp [h]
    · intro hfile
      rw [h] at hfile
      exact hbytes text (Node.file.inj (Option.some.inj hfile))
  · intro h
    cases hnode : tree.node? path with
    | none => exact .missing hnode
    | some node =>
        cases node with
        | directory => exact .directory hnode
        | file content =>
            refine .bytes hnode fun text htext => h text ?_
            rw [hnode, htext]

end FileTree

/-! ## Lines -/

/-- Lines are found again in their text.  After the last line end nothing is left. -/
theorem splitOn_linesText {lines : List String} (h : ∀ line ∈ lines, OneLine line) :
    (linesText lines).toList.splitOn '\n' = lines.map String.toList ++ [[]] := by
  induction lines with
  | nil => rfl
  | cons line lines ih =>
      obtain ⟨hline, hlines⟩ := List.forall_mem_cons.mp h
      have htext : (linesText (line :: lines)).toList =
          line.toList ++ '\n' :: (linesText lines).toList := by
        simp [linesText]
      rw [htext, List.splitOn_append_cons_self_of_not_mem hline, ih hlines]
      rfl

/-! ## Responses to a text -/

/-- What is on standard error, note by note, where `usage` is what is said about wrong
arguments. -/
def Response.errorLines (usage : String) (response : Response) : List String :=
  response.notes.map (Diagnostic.text usage)

/-- The notes about the end of an execution: one if there was an error. -/
def failureNotes : Except Error Unit → List Diagnostic
  | .ok _ => []
  | .error e => [.failure e.message]

/-- The level of detail that a command line asks for. -/
def Level.asked (verbose : Bool) : Level := if verbose then .debug else .warn

theorem Response.ofSource_eq (verbose : Bool) (source : String) :
    Response.ofSource verbose source =
      match (execute source).result with
      | .ok _ =>
          ⟨0, linesText (execute source).lines,
            (trace (.asked verbose) source).2.toList.map .event⟩
      | .error e =>
          ⟨1, linesText (execute source).lines,
            (trace (.asked verbose) source).2.toList.map .event ++ [.failure e.message]⟩ := by
  rw [← trace_outcome (.asked verbose) source]
  rfl

theorem Response.ofSource_output (verbose : Bool) (source : String) :
    (Response.ofSource verbose source).output = linesText (execute source).lines := by
  rw [Response.ofSource_eq]
  cases (execute source).result <;> rfl

theorem Response.ofSource_status (verbose : Bool) (source : String) :
    (Response.ofSource verbose source).status =
      match (execute source).result with
      | .ok _ => 0
      | .error _ => 1 := by
  rw [Response.ofSource_eq]
  cases (execute source).result <;> rfl

/-- The log comes first, and after it the error. -/
theorem Response.notes_ofSource (verbose : Bool) (source : String) :
    (Response.ofSource verbose source).notes =
      (trace (.asked verbose) source).2.toList.map .event ++
        failureNotes (execute source).result := by
  rw [Response.ofSource_eq]
  cases (execute source).result with
  | ok => exact (List.append_nil _).symm
  | error => rfl

theorem Response.errorLines_refuse (usage message : String) :
    (Response.refuse message).errorLines usage = ["Error: " ++ message] :=
  rfl

/-! ## Responses to a script -/

theorem Request.respond_run (read : String → Option ByteArray) (verbose : Bool) {path : String}
    (hpath : isScriptPath path) :
    (Request.run verbose path).respond read =
      match (read path).bind String.fromUTF8? with
      | some source => .ofSource verbose source
      | none => .refuse ("Could not read file '" ++ path ++ "'") :=
  if_pos hpath

theorem Request.respond_run_of_not (read : String → Option ByteArray) (verbose : Bool)
    {path : String} (hpath : ¬ isScriptPath path) :
    (Request.run verbose path).respond read = .refuse "File must have a .push extension" :=
  if_neg hpath

/-- A command line with a script does what executing its text does, whatever the files are.
Its output is the lines of the text, each with a line end, also those before an error, and
it can be cut into these lines again.  The status tells whether the execution succeeded,
and if not the error is in the last line on standard error.  A path with the wrong
extension is refused before it is looked at, and one without a text is refused by the name
that was given.  In a file tree a path has a text if a file with the bytes of one is there,
and none if it is missing, a directory or a file with other bytes. -/
theorem respond_script {args : List String} {verbose : Bool} {path : String}
    (hargs : Request.ofArgs args = .run verbose path) (read : String → Option ByteArray)
    (usage : String) :
    (∀ source : String, ".push".toList <:+ path.toList → read path = some source.toUTF8 →
      (respond read args).output = linesText (execute source).lines ∧
        (respond read args).output.toList.splitOn '\n' =
          (execute source).lines.map String.toList ++ [[]] ∧
        ((respond read args).status = 0 ↔ (execute source).result = .ok ()) ∧
        ∀ e, (execute source).result = .error e →
          (respond read args).status = 1 ∧
            ((respond read args).errorLines usage).getLast? = some ("Error: " ++ e.message) ∧
            OneLine ("Error: " ++ e.message)) ∧
    (¬ ".push".toList <:+ path.toList →
      (respond read args).status = 1 ∧ (respond read args).output = "" ∧
        (respond read args).errorLines usage = ["Error: File must have a .push extension"]) ∧
    (".push".toList <:+ path.toList → (∀ source : String, read path ≠ some source.toUTF8) →
      (respond read args).status = 1 ∧ (respond read args).output = "" ∧
        (respond read args).errorLines usage =
          ["Error: Could not read file '" ++ path ++ "'"]) ∧
    ∀ files : FileTree,
      (∀ source : String, files.read? path = some source.toUTF8 ↔
        files.node? path = some (.file source.toUTF8)) ∧
      ((∀ source : String, files.read? path ≠ some source.toUTF8) ↔ files.NoText path) := by
  rw [respond, hargs, ← isScriptPath_iff]
  refine ⟨?_, ?_, ?_, fun files => ⟨fun _ => FileTree.read?_eq_some_iff, FileTree.noText_iff.symm⟩⟩
  · intro source hpath hread
    rw [Request.respond_run _ _ hpath, bind_fromUTF8?_eq_some_iff.mpr hread]
    refine ⟨Response.ofSource_output verbose source, ?_, ?_, ?_⟩
    · rw [Response.ofSource_output]
      exact splitOn_linesText fun line hline => oneLine_of_mem_lines hline
    · rw [Response.ofSource_status]
      cases (execute source).result <;> simp
    · intro e he
      refine ⟨?_, ?_, OneLine.append (by decide) (execute_message_oneLine he)⟩
      · rw [Response.ofSource_status, he]
      · rw [Response.errorLines, Response.notes_ofSource, he, List.map_append]
        exact List.getLast?_concat
  · intro hpath
    rw [Request.respond_run_of_not _ _ hpath]
    exact ⟨rfl, rfl, rfl⟩
  · intro hpath hread
    rw [Request.respond_run _ _ hpath, bind_fromUTF8?_eq_none_iff.mpr hread]
    refine ⟨rfl, rfl, (Response.errorLines_refuse usage _).trans ?_⟩
    rw [← String.append_assoc, ← String.append_assoc]
    rfl

/-- A script that fails and a directory, in the working directory, and above it bytes that
are those of no text. -/
def scriptTree : FileTree :=
  ⟨["work"], [(["work", "a.push"], .file "print(1);print(x);".toUTF8),
    (["work", "b.push"], .directory), (["c.push"], .file ⟨#[0xff]⟩)]⟩

/-- The script is named by a path from the root, and the bytes by one that goes up. -/
theorem respond_scriptTree :
    scriptTree.node? "/work/a.push" = some (.file "print(1);print(x);".toUTF8) ∧
      (respond scriptTree.read? ["-v", "/work/a.push"]).output = linesText ["1"] ∧
      (respond scriptTree.read? ["-v", "/work/a.push"]).status = 1 ∧
      ((respond scriptTree.read? ["-v", "/work/a.push"]).errorLines usageText).getLast? =
        some ("Error: " ++ "Variable 'x' is not declared") ∧
      scriptTree.NoText "b.push" ∧
      (respond scriptTree.read? ["b.push"]).errorLines usageText =
        ["Error: Could not read file '" ++ "b.push" ++ "'"] ∧
      scriptTree.NoText "../c.push" ∧
      (respond scriptTree.read? ["../c.push"]).errorLines usageText =
        ["Error: Could not read file '" ++ "../c.push" ++ "'"] ∧
      (respond scriptTree.read? ["c.pus"]).errorLines usageText =
        ["Error: File must have a .push extension"] := by
  have hargs : Request.ofArgs ["-v", "/work/a.push"] = .run true "/work/a.push" ∧
      Request.ofArgs ["b.push"] = .run false "b.push" ∧
      Request.ofArgs ["../c.push"] = .run false "../c.push" ∧
      Request.ofArgs ["c.pus"] = .run false "c.pus" := by
    decide +kernel
  have hsuffix : ".push".toList <:+ "/work/a.push".toList ∧ ".push".toList <:+ "b.push".toList ∧
      ".push".toList <:+ "../c.push".toList ∧ ¬ ".push".toList <:+ "c.pus".toList := by
    decide +kernel
  have hplaces : scriptTree.place? "/work/a.push" = some ["work", "a.push"] ∧
      scriptTree.place? "b.push" = some ["work", "b.push"] ∧
      scriptTree.place? "../c.push" = some ["c.push"] := by
    decide +kernel
  have hfile : scriptTree.node? "/work/a.push" = some (.file "print(1);print(x);".toUTF8) := by
    rw [FileTree.node?, hplaces.1]
    rfl
  have hdirectory : scriptTree.NoText "b.push" := by
    refine .directory ?_
    rw [FileTree.node?, hplaces.2.1]
    rfl
  have hbytes : scriptTree.NoText "../c.push" := by
    have hnode : scriptTree.node? "../c.push" = some (.file ⟨#[0xff]⟩) := by
      rw [FileTree.node?, hplaces.2.2]
      rfl
    refine .bytes hnode fun text htext => ?_
    have hinvalid : ¬ ByteArray.IsValidUTF8 ⟨#[0xff]⟩ := by decide +kernel
    exact hinvalid (htext ▸ text.isValidUTF8)
  have hfails : (execute "print(1);print(x);").result = .error (.runtime (.undeclared "x")) := by
    decide +kernel
  have hlines : (execute "print(1);print(x);").lines = ["1"] := by decide +kernel
  obtain ⟨hscript, -, -, htree⟩ := respond_script hargs.1 scriptTree.read? usageText
  obtain ⟨-, -, hb, htree'⟩ := respond_script hargs.2.1 scriptTree.read? usageText
  obtain ⟨-, -, hc, htree''⟩ := respond_script hargs.2.2.1 scriptTree.read? usageText
  obtain ⟨-, hextension, -⟩ := respond_script hargs.2.2.2 scriptTree.read? usageText
  obtain ⟨houtput, -, -, herror⟩ := hscript _ hsuffix.1 (((htree scriptTree).1 _).mpr hfile)
  obtain ⟨hstatus, hlast, -⟩ := herror _ hfails
  rw [hlines] at houtput
  exact ⟨hfile, houtput, hstatus, hlast,
    hdirectory, (hb hsuffix.2.1 ((htree' scriptTree).2.mpr hdirectory)).2.2,
    hbytes, (hc hsuffix.2.2.1 ((htree'' scriptTree).2.mpr hbytes)).2.2,
    (hextension hsuffix.2.2.2).2.2⟩

end SumScript
