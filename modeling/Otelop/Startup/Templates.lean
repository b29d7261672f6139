import Mathlib.Tactic
import Otelop.Lib.CEscape
import Otelop.Lib.FilePath
import Otelop.Lib.Quotation
import Otelop.Lib.XmlText

/-!
# Files of the startup registration

The templates of `internal/startup/templates.go`, and the readers of what they are filled
with: systemd, a POSIX shell and launchd.

The texts of the templates are those of the source, and a filled template is a list of bytes,
since a path need not be UTF-8.  Each reader is given a whole file and looks for the program
that the file names: the value of `ExecStart=`, the command behind `exec`, the first string of
the array.  It undoes the quotation of its program and gives nothing where it does not find
what it looks for.

`Registration` chooses the paths and refuses some of them.

**Results.**
* `unitProgram_systemdUnitTemplate`: systemd reads the executable back.
* `scriptProgram_launcherWrapperTemplate`: so does the shell.
* `plistProgram_launchAgentTemplate_iff`: launchd does so if and only if XML can hold the
  path.
-/

namespace Otelop
namespace Startup

open Lib

/-! ### Templates -/

/-- The label of the launch agent. -/
def label : List UInt8 := asciiBytes "io.github.mashiro.otelop"

/-- A text as it stands in a plist. -/
def xmlText (s : List UInt8) : List UInt8 := escapeText s

/-- A text as one word of a shell. -/
def shellQuote (s : List UInt8) : List UInt8 := singleQuoted s

/-- The replacer doubles percent and dollar signs. -/
def unitExecutable (table : Char → Bool) (s : List UInt8) : List UInt8 :=
  quoteBytes table (s.flatMap (doubled [0x25, 0x24]))

/-- Lines with line breaks between them. -/
def unlines (lines : List (List UInt8)) : List UInt8 := List.intercalate [0x0A] lines

/-- The lines in front of the program's. -/
def launchAgentHead : List (List UInt8) :=
  [asciiBytes "<?xml version=\"1.0\" encoding=\"UTF-8\"?>",
    asciiBytes "<!DOCTYPE plist PUBLIC \"-//Apple//DTD PLIST 1.0//EN\" " ++
      asciiBytes "\"http://www.apple.com/DTDs/PropertyList-1.0.dtd\">",
    asciiBytes "<plist version=\"1.0\">",
    asciiBytes "\t<dict>",
    asciiBytes "\t\t<key>Label</key>"]

/-- The lines behind them. -/
def launchAgentTail : List (List UInt8) :=
  [asciiBytes "\t\t\t<string>start</string>",
    asciiBytes "\t\t</array>",
    asciiBytes "\t\t<key>RunAtLoad</key>",
    asciiBytes "\t\t<true/>",
    asciiBytes "\t\t<key>AbandonProcessGroup</key>",
    asciiBytes "\t\t<true/>",
    asciiBytes "\t</dict>",
    asciiBytes "</plist>",
    []]

/-- The plist of the launch agent. -/
def launchAgentTemplate (executable : List UInt8) : List UInt8 :=
  unlines <| launchAgentHead ++
    [asciiBytes "\t\t<string>" ++ xmlText label ++ asciiBytes "</string>",
      asciiBytes "\t\t<key>ProgramArguments</key>",
      asciiBytes "\t\t<array>",
      asciiBytes "\t\t\t<string>" ++ xmlText executable ++ asciiBytes "</string>"] ++
    launchAgentTail

/-- The script that starts the program. -/
def launcherWrapperTemplate (executable : List UInt8) : List UInt8 :=
  unlines [asciiBytes "#!/bin/sh",
    asciiBytes "exec " ++ shellQuote executable ++ asciiBytes " \"$@\"", []]

/-- The lines in front of `ExecStart=`. -/
def systemdUnitHead : List (List UInt8) :=
  [asciiBytes "[Unit]", asciiBytes "Description=Start otelop at user login", [],
    asciiBytes "[Service]", asciiBytes "Type=oneshot", asciiBytes "RemainAfterExit=yes"]

/-- The lines behind it. -/
def systemdUnitTail : List (List UInt8) :=
  [[], asciiBytes "[Install]", asciiBytes "WantedBy=default.target", []]

/-- The unit of systemd. -/
def systemdUnitTemplate (table : Char → Bool) (executable : List UInt8) : List UInt8 :=
  unlines <| systemdUnitHead ++
    [asciiBytes "ExecStart=" ++ unitExecutable table executable ++ asciiBytes " start"] ++
    systemdUnitTail

/-! ### Readers -/

/-- What follows a beginning. -/
def stripStart (start text : List UInt8) : Option (List UInt8) :=
  if start.isPrefixOf text then some (text.drop start.length) else none

/-- The program of a unit: the first word of `ExecStart=`, in double quotes with escapes,
where a percent sign that is not doubled begins a specifier and a dollar sign a variable. -/
def unitProgram (file : List UInt8) : Option (List UInt8) := do
  let value ← (file.splitOn 0x0A).findSome? (stripStart (asciiBytes "ExecStart="))
  let quoted ← stripStart [0x22] value
  let (word, rest) ← readWord .plain quoted
  if rest.head? = some 0x20 then
    let specified ← undouble 0x25 word
    undouble 0x24 specified
  else none

/-- The program of a script whose first line is a comment: what its command `exec` runs. -/
def scriptProgram (file : List UInt8) : Option (List UInt8) := do
  let body ← stripStart [0x0A] (file.dropWhile fun b => decide (b ≠ 0x0A))
  let (command, rest) ← shellWord .unquoted body
  if command = asciiBytes "exec" then
    let argument ← stripStart [0x20] rest
    let (word, _) ← shellWord .unquoted argument
    return word
  else none

/-- The program of a property list: the first string of its array. -/
def plistProgram (file : List UInt8) : Option (List UInt8) := do
  let fromArray := (file.splitOn 0x0A).dropWhile fun l => decide (l ≠ asciiBytes "\t\t<array>")
  let line ← (fromArray.drop 1).head?
  let text ← stripStart (asciiBytes "\t\t\t<string>") line
  readXmlText (text.takeWhile fun b => decide (b ≠ 0x3C))

/-! ### Lines -/

theorem stripStart_append (start text : List UInt8) :
    stripStart start (start ++ text) = some text := by
  rw [stripStart, if_pos (List.isPrefixOf_iff_prefix.mpr (List.prefix_append start text)),
    List.drop_left]

/-- Lines without line breaks are read back. -/
theorem splitOn_unlines
    {lines : List (List UInt8)} (h : ∀ l ∈ lines, 0x0A ∉ l) (hne : lines ≠ []) :
    (unlines lines).splitOn 0x0A = lines :=
  List.splitOn_intercalate 0x0A h hne

/-! ### systemd -/

/-- No line of the unit has a line break in it. -/
theorem newline_notMem_systemdUnit :
    ∀ l ∈ systemdUnitHead ++ systemdUnitTail, 0x0A ∉ l := by
  decide

/-- The first `ExecStart=` of a unit is the program's. -/
theorem findSome_systemdUnitHead :
    systemdUnitHead.findSome? (stripStart (asciiBytes "ExecStart=")) = none := by
  decide

/-- systemd reads the executable back. -/
theorem unitProgram_systemdUnitTemplate
    (table : Char → Bool) {executable : List UInt8} (hzero : 0 ∉ executable)
    (hnewline : 0x0A ∉ executable) :
    unitProgram (systemdUnitTemplate table executable) = some executable := by
  have hdoubledZero := notMem_flatMap_doubled hzero [0x25, 0x24]
  have hdoubledNewline := notMem_flatMap_doubled hnewline [0x25, 0x24]
  obtain ⟨word, hword, hread⟩ :=
    readWord_quoteBytes table hdoubledZero (asciiBytes " start")
  have hline : 0x0A ∉ asciiBytes "ExecStart=" ++ unitExecutable table executable ++
      asciiBytes " start" := by
    rw [List.mem_append, List.mem_append, unitExecutable]
    rintro ((hmem | hmem) | hmem)
    · revert hmem
      decide
    · exact newline_notMem_quoteBytes table hdoubledNewline hmem
    · revert hmem
      decide
  have hlines : (systemdUnitTemplate table executable).splitOn 0x0A =
      systemdUnitHead ++
        [asciiBytes "ExecStart=" ++ unitExecutable table executable ++ asciiBytes " start"] ++
        systemdUnitTail := by
    refine splitOn_unlines (fun l hl => ?_) (by simp)
    rcases List.mem_append.mp hl with hl | hl
    · rcases List.mem_append.mp hl with hl | hl
      · exact newline_notMem_systemdUnit l (List.mem_append_left _ hl)
      · rw [List.mem_singleton.mp hl]
        exact hline
    · exact newline_notMem_systemdUnit l (List.mem_append_right _ hl)
  have hvalue : (systemdUnitHead ++
        [asciiBytes "ExecStart=" ++ unitExecutable table executable ++ asciiBytes " start"] ++
        systemdUnitTail).findSome? (stripStart (asciiBytes "ExecStart=")) =
      some (0x22 :: (word ++ asciiBytes " start")) := by
    rw [List.append_assoc, List.findSome?_append, findSome_systemdUnitHead, Option.none_or,
      List.singleton_append, List.findSome?_cons, List.append_assoc, stripStart_append,
      unitExecutable, hword, List.cons_append]
  have hquoted : stripStart [0x22] (0x22 :: (word ++ asciiBytes " start")) =
      some (word ++ asciiBytes " start") :=
    stripStart_append [0x22] _
  have hblank : (asciiBytes " start").head? = some 0x20 := by decide
  rw [unitProgram, hlines, hvalue]
  simp only [Option.bind_eq_bind, Option.bind_some, hquoted, hread, hblank, if_true]
  rw [undouble_flatMap_doubled (by decide), Option.bind_some, undouble_flatMap_doubled (by decide),
    flatMap_doubled_nil]

/-! ### The shell -/

/-- The shell runs the executable. -/
theorem scriptProgram_launcherWrapperTemplate
    (executable : List UInt8) :
    scriptProgram (launcherWrapperTemplate executable) = some executable := by
  have hbody : stripStart [0x0A]
      ((launcherWrapperTemplate executable).dropWhile fun b => decide (b ≠ 0x0A)) =
        some (asciiBytes "exec " ++ (shellQuote executable ++ (asciiBytes " \"$@\"" ++ [0x0A]))) := by
    have hfile : launcherWrapperTemplate executable = asciiBytes "#!/bin/sh" ++
        ([0x0A] ++ (asciiBytes "exec " ++
          (shellQuote executable ++ (asciiBytes " \"$@\"" ++ [0x0A])))) := by
      simp [launcherWrapperTemplate, unlines, List.intercalate_cons_cons]
    rw [hfile, List.dropWhile_append_of_pos (List.all_iff_forall_prop.mp (by decide)),
      List.singleton_append, List.dropWhile_cons_of_neg (by decide)]
    exact stripStart_append [0x0A] _
  have hcommand : ∀ rest, shellWord .unquoted (asciiBytes "exec " ++ rest) =
      some (asciiBytes "exec", 0x20 :: rest) := fun rest => rfl
  have hargument : ∀ rest, stripStart [0x20] (0x20 :: rest) = some rest :=
    fun rest => stripStart_append [0x20] rest
  have hword : shellWord .unquoted (shellQuote executable ++ (asciiBytes " \"$@\"" ++ [0x0A])) =
      some (executable, asciiBytes " \"$@\"" ++ [0x0A]) :=
    shellWord_singleQuoted executable (by decide) _
  rw [scriptProgram, hbody]
  simp only [Option.bind_eq_bind, Option.bind_some, hcommand, if_true, hargument, hword]
  rfl

/-! ### launchd -/

theorem newline_notMem_launchAgent :
    ∀ l ∈ launchAgentHead ++ asciiBytes "\t\t<key>ProgramArguments</key>" ::
      asciiBytes "\t\t<array>" :: launchAgentTail, 0x0A ∉ l := by
  decide

theorem newline_notMem_stringLine
    {start stop : List UInt8} (hstart : 0x0A ∉ start) (hstop : 0x0A ∉ stop) (s : List UInt8) :
    0x0A ∉ start ++ xmlText s ++ stop := by
  rw [List.mem_append, List.mem_append]
  rintro ((hmem | hmem) | hmem)
  · exact hstart hmem
  · exact notMem_escapeText (show '\n' ∈ alwaysEscaped by decide) s hmem
  · exact hstop hmem

theorem ne_arrayLine
    (s : List UInt8) :
    ∀ l ∈ launchAgentHead ++ [asciiBytes "\t\t<string>" ++ xmlText s ++ asciiBytes "</string>",
      asciiBytes "\t\t<key>ProgramArguments</key>"], l ≠ asciiBytes "\t\t<array>" := by
  have hhead : ∀ l ∈ launchAgentHead, l ≠ asciiBytes "\t\t<array>" := by decide
  intro l hl
  rcases List.mem_append.mp hl with hl | hl
  · exact hhead l hl
  rcases List.mem_cons.mp hl with rfl | hl
  · intro h
    have hfourth : (asciiBytes "\t\t<string>" ++ xmlText s ++ asciiBytes "</string>").take 4 =
        asciiBytes "\t\t<s" := rfl
    rw [h] at hfourth
    revert hfourth
    decide
  · rw [List.mem_singleton.mp hl]
    decide

/-- The text of an element ends at the first tag. -/
theorem takeWhile_xmlText
    (s : List UInt8) :
    (xmlText s ++ asciiBytes "</string>").takeWhile (fun b => decide (b ≠ 0x3C)) = xmlText s := by
  have hless : ∀ b ∈ xmlText s, decide (b ≠ 0x3C) = true := by
    intro b hb
    refine decide_eq_true ?_
    rintro rfl
    exact notMem_escapeText (show '<' ∈ alwaysEscaped by decide) s hb
  have hstop : (asciiBytes "</string>").takeWhile (fun b => decide (b ≠ 0x3C)) = [] := by decide
  rw [List.takeWhile_append_of_pos hless, hstop, List.append_nil]

/-- launchd reads what XML makes of the executable. -/
theorem plistProgram_launchAgentTemplate
    (executable : List UInt8) :
    plistProgram (launchAgentTemplate executable) = readXmlText (xmlText executable) := by
  have hlines : (launchAgentTemplate executable).splitOn 0x0A = (launchAgentHead ++
      [asciiBytes "\t\t<string>" ++ xmlText label ++ asciiBytes "</string>",
        asciiBytes "\t\t<key>ProgramArguments</key>"]) ++
      asciiBytes "\t\t<array>" ::
        (asciiBytes "\t\t\t<string>" ++ xmlText executable ++ asciiBytes "</string>") ::
          launchAgentTail := by
    refine splitOn_unlines (fun l hl => ?_) (by simp [launchAgentHead])
    have hall := newline_notMem_launchAgent
    simp only [List.mem_append, List.mem_cons, List.not_mem_nil, or_false] at hl hall
    rcases hl with (hl | rfl | rfl | rfl | rfl) | hl
    · exact hall l (Or.inl hl)
    · exact newline_notMem_stringLine (by decide) (by decide) _
    · exact hall _ (Or.inr (Or.inl rfl))
    · exact hall _ (Or.inr (Or.inr (Or.inl rfl)))
    · exact newline_notMem_stringLine (by decide) (by decide) _
    · exact hall l (Or.inr (Or.inr (Or.inr hl)))
  have harray : ∀ rest, ((launchAgentHead ++
      [asciiBytes "\t\t<string>" ++ xmlText label ++ asciiBytes "</string>",
        asciiBytes "\t\t<key>ProgramArguments</key>"]) ++
      asciiBytes "\t\t<array>" :: rest).dropWhile
        (fun l => decide (l ≠ asciiBytes "\t\t<array>")) = asciiBytes "\t\t<array>" :: rest := by
    intro rest
    rw [List.dropWhile_append_of_pos fun l hl => decide_eq_true (ne_arrayLine label l hl),
      List.dropWhile_cons_of_neg (by decide)]
  rw [plistProgram, hlines, harray]
  simp only [List.drop_one, List.tail_cons, List.head?_cons, Option.bind_eq_bind, Option.bind_some,
    List.append_assoc, stripStart_append]
  rw [takeWhile_xmlText]

/-- launchd reads the executable back if and only if XML can hold it. -/
theorem plistProgram_launchAgentTemplate_iff
    (executable : List UInt8) :
    plistProgram (launchAgentTemplate executable) = some executable ↔ HoldsInXml executable := by
  rw [plistProgram_launchAgentTemplate, xmlText, readXmlText_escapeText_iff]

end Startup
end Otelop
