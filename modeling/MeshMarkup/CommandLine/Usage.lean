namespace MeshMarkup.CommandLine

def programName : String := "collada-lite"

def programVersion : String := "0.1.0"

def topUsage : List String :=
  ["usage: collada-lite [-h] [--version] [--verbose] [--quiet]",
   "                    \x7bparse,extract,tree\x7d ..."]

def topDetails : List String :=
  ["",
   "Parse COLLADA geometry files and extract renderer-ready vertices",
   "",
   "positional arguments:",
   "  \x7bparse,extract,tree\x7d  Available commands",
   "    parse               Parse files",
   "    extract             Extract geometry from a file",
   "    tree                Pretty-print the parsed document",
   "",
   "options:",
   "  -h, --help            show this help message and exit",
   "  --version             show program's version number and exit",
   "  --verbose, -v         Verbose output",
   "  --quiet, -q           Quiet output"]

def parseUsage : List String :=
  ["usage: collada-lite parse [-h] [--config CONFIG]",
   "                          [--preset \x7blenient,positions_only,strict\x7d]",
   "                          [--strict] [--format \x7bjson,text\x7d]",
   "                          paths [paths ...]"]

def parseDetails : List String :=
  ["",
   "positional arguments:",
   "  paths                 Files to parse",
   "",
   "options:",
   "  -h, --help            show this help message and exit",
   "  --config CONFIG, -c CONFIG",
   "                        Loader configuration JSON file",
   "  --preset \x7blenient,positions_only,strict\x7d",
   "                        Loader configuration preset (ignored when --config is",
   "                        given)",
   "  --strict              Require closing tag names to match opening names",
   "  --format \x7bjson,text\x7d, -f \x7bjson,text\x7d",
   "                        Output format (default: text)"]

def extractUsage : List String :=
  ["usage: collada-lite extract [-h] [--config CONFIG]",
   "                            [--preset \x7blenient,positions_only,strict\x7d]",
   "                            [--strict] [--format \x7bjson,text\x7d] [--full]",
   "                            [--output OUTPUT]",
   "                            path"]

def extractDetails : List String :=
  ["",
   "positional arguments:",
   "  path                  File to load",
   "",
   "options:",
   "  -h, --help            show this help message and exit",
   "  --config CONFIG, -c CONFIG",
   "                        Loader configuration JSON file",
   "  --preset \x7blenient,positions_only,strict\x7d",
   "                        Loader configuration preset (ignored when --config is",
   "                        given)",
   "  --strict              Require closing tag names to match opening names",
   "  --format \x7bjson,text\x7d, -f \x7bjson,text\x7d",
   "                        Output format (default: json)",
   "  --full                Include every array and vertex",
   "  --output OUTPUT, -o OUTPUT",
   "                        Output file (default: stdout)"]

def treeUsage : List String :=
  ["usage: collada-lite tree [-h] [--config CONFIG]",
   "                         [--preset \x7blenient,positions_only,strict\x7d] [--strict]",
   "                         [--indent INDENT]",
   "                         path"]

def treeDetails : List String :=
  ["",
   "positional arguments:",
   "  path                  File to print",
   "",
   "options:",
   "  -h, --help            show this help message and exit",
   "  --config CONFIG, -c CONFIG",
   "                        Loader configuration JSON file",
   "  --preset \x7blenient,positions_only,strict\x7d",
   "                        Loader configuration preset (ignored when --config is",
   "                        given)",
   "  --strict              Require closing tag names to match opening names",
   "  --indent INDENT       Spaces per level"]

def textOfLines (lines : List String) : String := String.join (lines.map (· ++ "\n"))

end MeshMarkup.CommandLine
