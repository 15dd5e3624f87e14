import WrapperGen.Command

namespace WrapperGen.Command

/-- An option or an argument with what is said about it. -/
abbrev HelpLine := String × String

/-- The lines with what is said in one column, two spaces behind the longest line. -/
def helpTable (rows : List HelpLine) : String :=
  let width := rows.foldl (fun w row => max w row.1.length) 0
  "\n".intercalate (rows.map fun row =>
    "  " ++ row.1 ++ String.ofList (List.replicate (width + 2 - row.1.length) ' ') ++ row.2)

def helpRow : HelpLine := ("-h, --help", "Print help")

def helpSections (about usage : String) (sections : List (String × List HelpLine)) : String :=
  "\n\n".intercalate
    (about :: ("Usage: " ++ usage) ::
      sections.map fun (title, rows) => title ++ ":\n" ++ helpTable rows)

def aboutHelp : String := "Print this message or the help of the given subcommand(s)"

def Name.about : Name → String
  | .scan => "Resolve marked view-models across rounds and write the manifest"
  | .generate => "Generate Swift wrappers from a manifest"
  | .digest => "Print the digest of a manifest's canonical encoding"

/-- The help on a topic. -/
def Topic.text : Topic → String
  | .program =>
    helpSections "Bridge shared view-models to observable Swift wrappers" "vmbridge <COMMAND>"
      [("Commands",
        [("scan", Name.scan.about), ("generate", Name.generate.about),
          ("digest", Name.digest.about),
          ("help", aboutHelp)]),
        ("Options", [helpRow])]
  | .command .scan =>
    helpSections Name.scan.about "vmbridge scan [OPTIONS] --round <ROUNDS> --out <OUT>"
      [("Options",
        [("    --round <ROUNDS>", "Symbol dump for one round; repeat in round order"),
          ("    --out <OUT>", "Manifest file to write"),
          ("    --state-container <STATE_CONTAINERS>",
            "Additional accepted state container (qualified name)"),
          ("    --deny-diagnostics", "Fail if any view-model was rejected"), helpRow])]
  | .command .generate =>
    helpSections Name.generate.about
      "vmbridge generate [OPTIONS] --manifest <MANIFEST> --out-dir <OUT_DIR>"
      [("Options",
        [("    --manifest <MANIFEST>", "Manifest file to read"),
          ("    --out-dir <OUT_DIR>", "Directory receiving the generated units"),
          ("    --config <CONFIG>", "Generator config (TOML)"),
          ("    --strict", "Fail if any entry could not be generated"), helpRow])]
  | .command .digest =>
    helpSections Name.digest.about "vmbridge digest <MANIFEST>"
      [("Arguments", [("<MANIFEST>", "Manifest file to read")]), ("Options", [helpRow])]
  | .help =>
    helpSections aboutHelp "vmbridge help [COMMAND]..."
      [("Arguments", [("[COMMAND]...", "Print help for the subcommand(s)")])]

end WrapperGen.Command
