import SyntaxView.Text.WhiteSpace

/-!
# Languages

The languages whose grammars are at hand, the names they are called by and the file extensions
that point to them.
-/

namespace SyntaxView

/-- A language with a grammar. -/
inductive Language where
  | bash
  | c
  | cpp
  | csharp
  | css
  | elixir
  | go
  | haskell
  | hcl
  | html
  | java
  | javascript
  | json
  | kotlin
  | lua
  | nix
  | php
  | python
  | ruby
  | rust
  | scala
  | solidity
  | swift
  | tsx
  | typescript
  | yaml
  deriving Repr, DecidableEq, Inhabited

namespace Language

/-- All languages, in the order in which names and extensions are looked up. -/
def all : List Language :=
  [.bash, .c, .cpp, .csharp, .css, .elixir, .go, .haskell, .hcl, .html, .java, .javascript,
   .json, .kotlin, .lua, .nix, .php, .python, .ruby, .rust, .scala, .solidity, .swift, .tsx,
   .typescript, .yaml]

/-- The name under which a language is shown. -/
def name : Language → String
  | bash => "Bash"
  | c => "C"
  | cpp => "Cpp"
  | csharp => "CSharp"
  | css => "Css"
  | elixir => "Elixir"
  | go => "Go"
  | haskell => "Haskell"
  | hcl => "Hcl"
  | html => "Html"
  | java => "Java"
  | javascript => "JavaScript"
  | json => "Json"
  | kotlin => "Kotlin"
  | lua => "Lua"
  | nix => "Nix"
  | php => "Php"
  | python => "Python"
  | ruby => "Ruby"
  | rust => "Rust"
  | scala => "Scala"
  | solidity => "Solidity"
  | swift => "Swift"
  | tsx => "Tsx"
  | typescript => "TypeScript"
  | yaml => "Yaml"

/-- The names a language is called by, in lower case. -/
def aliases : Language → List String
  | bash => ["bash"]
  | c => ["c"]
  | cpp => ["cc", "c++", "cpp", "cxx"]
  | csharp => ["cs", "csharp"]
  | css => ["css"]
  | elixir => ["ex", "elixir"]
  | go => ["go", "golang"]
  | haskell => ["hs", "haskell"]
  | hcl => ["hcl"]
  | html => ["html"]
  | java => ["java"]
  | javascript => ["javascript", "js", "jsx"]
  | json => ["json"]
  | kotlin => ["kotlin", "kt"]
  | lua => ["lua"]
  | nix => ["nix"]
  | php => ["php"]
  | python => ["py", "python"]
  | ruby => ["rb", "ruby"]
  | rust => ["rs", "rust"]
  | scala => ["scala"]
  | solidity => ["sol", "solidity"]
  | swift => ["swift"]
  | tsx => ["tsx"]
  | typescript => ["ts", "typescript"]
  | yaml => ["yaml", "yml"]

/-- The extensions of files in a language. -/
def extensions : Language → List String
  | bash => ["bash", "bats", "cgi", "command", "env", "fcgi", "ksh", "sh", "tmux", "tool", "zsh"]
  | c => ["c", "h"]
  | cpp => ["cc", "hpp", "cpp", "c++", "hh", "cxx", "cu", "ino"]
  | csharp => ["cs"]
  | css => ["css", "scss"]
  | elixir => ["ex", "exs"]
  | go => ["go"]
  | haskell => ["hs"]
  | hcl => ["hcl"]
  | html => ["html", "htm", "xhtml"]
  | java => ["java"]
  | javascript => ["cjs", "js", "mjs", "jsx"]
  | json => ["json"]
  | kotlin => ["kt", "ktm", "kts"]
  | lua => ["lua"]
  | nix => ["nix"]
  | php => ["php"]
  | python => ["py", "py3", "pyi", "bzl"]
  | ruby => ["rb", "rbw", "gemspec"]
  | rust => ["rs"]
  | scala => ["scala", "sc", "sbt"]
  | solidity => ["sol"]
  | swift => ["swift"]
  | tsx => ["tsx"]
  | typescript => ["ts", "cts", "mts"]
  | yaml => ["yaml", "yml"]

/-- The text with its ASCII capitals in lower case; no other character is changed. -/
def lowerAscii (s : List Char) : List Char := s.map Char.toLower

/-- The language a name stands for.  White space around the name and the case of ASCII letters do
not matter. -/
def ofName? (s : String) : Option Language :=
  let key := lowerAscii (Text.trim s.toList)
  all.find? fun l => l.aliases.any fun a => a.toList == key

/-- The language of files with that extension; here case matters. -/
def ofExtension? (extension : String) : Option Language :=
  all.find? fun l => l.extensions.contains extension

/-- The form in which a language is shown inside the description of something else. -/
def describe (l : Language) : String := s!"Language({l.name})"

end Language

end SyntaxView
