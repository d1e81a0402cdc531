import AriaLint.Text.Basic

/-!
# Help

What the program says about itself when it is asked to.
-/

namespace AriaLint.Cli

/-- The version of the program. -/
def versionLine : Text := "aria-helper 1.0.0\n"

/-- The lines of the help. -/
def helpLines : List Text :=
  ["usage: aria-helper [-h] [-o OUTPUT] [-f \x7bjson,text\x7d] [--fix [PATH]]",
   "                   [--track-tablist-depth] [-v] [--version]",
   "                   input",
   "",
   "Check markup snippets for common WAI-ARIA mistakes",
   "",
   "positional arguments:",
   "  input                 Path to input snippet or HTML file (\x27-\x27 reads stdin)",
   "",
   "options:",
   "  -h, --help            show this help message and exit",
   "  -o OUTPUT, --output OUTPUT",
   "                        Output file for report (default: stdout)",
   "  -f \x7bjson,text\x7d, --format \x7bjson,text\x7d",
   "                        Output format (default: text)",
   "  --fix [PATH]          Write the fixed snippet to PATH (default:",
   "                        input.fixed.html)",
   "  --track-tablist-depth",
   "                        Match nested same-named containers when adding",
   "                        role=\"tablist\"",
   "  -v, --verbose         Enable verbose output",
   "  --version             show program\x27s version number and exit",
   "",
   "Example: aria-helper widget.html --fix"]

/-- How the program is used. -/
def helpText : Text := helpLines.flatMap fun line => line ++ "\n"

end AriaLint.Cli
