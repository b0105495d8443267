/-
The commands of the built-in shell, `kern/sys/kshell.c`, and the prompt that starts it.

`cmd_count` and `commands` are never set back, so what one start of the shell registers is
still there at the next.  A step is what the user does at the prompt of `kinit_prompt` or in
the shell, with what the input device answers.  `stores` keeps which entries of the table were
written, `starts` how often the shell was started, and `ran` which functions each line ran.

What a command does is left out; none of them registers another one, or writes to the words of
its line.
-/
import OsThing.Kern.Strings
import OsThing.User.Shell

namespace OsThing.Kshell

open Shell (STR_LIMIT)
open Strings (strcmp)

def CMD_LIMIT : Nat := 64

inductive ShellFunc
  | list | cd | write | read | mkdir | clear | debug | help | test | atoi | sleep | reboot | mem
  | ps | msg | kill | getmsg | uptime | cat | mount | unmount | chroot | dump
  deriving DecidableEq

structure ShellCmd where
  name : Option (List UInt8)
  function : Option ShellFunc

structure Registry where
  cmdCount : Nat
  commands : Nat → ShellCmd
  stores : List Nat

namespace Registry

variable (r : Registry)

def registerShellFunc (name : List UInt8) (function : ShellFunc) : Registry where
  cmdCount := r.cmdCount + 1
  commands := Function.update r.commands r.cmdCount ⟨some name, some function⟩
  stores := r.stores ++ [r.cmdCount]

end Registry

/-- The bytes of a string. -/
def bytes (s : List Char) : List UInt8 := s.map fun c => UInt8.ofNat c.toNat

/-- The calls that `init_shell` makes. -/
def builtins : List (List UInt8 × ShellFunc) :=
  [(bytes ['l', 's'], .list), (bytes ['c', 'd'], .cd),
    (bytes ['w', 'r', 'i', 't', 'e'], .write), (bytes ['r', 'e', 'a', 'd'], .read),
    (bytes ['m', 'k', 'd', 'i', 'r'], .mkdir), (bytes ['c', 'l', 'e', 'a', 'r'], .clear),
    (bytes ['d', 'e', 'b', 'u', 'g'], .debug), (bytes ['h', 'e', 'l', 'p'], .help),
    (bytes ['t', 'e', 's', 't'], .test), (bytes ['a', 't', 'o', 'i'], .atoi),
    (bytes ['s', 'l', 'e', 'e', 'p'], .sleep), (bytes ['r', 'e', 'b', 'o', 'o', 't'], .reboot),
    (bytes ['m', 'e', 'm'], .mem), (bytes ['p', 's'], .ps), (bytes ['m', 's', 'g'], .msg),
    (bytes ['k', 'i', 'l', 'l'], .kill), (bytes ['g', 'e', 't', 'm', 's', 'g'], .getmsg),
    (bytes ['u', 'p', 't', 'i', 'm', 'e'], .uptime), (bytes ['c', 'a', 't'], .cat),
    (bytes ['m', 'o', 'u', 'n', 't'], .mount), (bytes ['u', 'n', 'm', 'o', 'u', 'n', 't'], .unmount),
    (bytes ['c', 'h', 'r', 'o', 'o', 't'], .chroot), (bytes ['d', 'u', 'm', 'p'], .dump)]

def initShell (r : Registry) : Registry :=
  builtins.foldl (fun r (name, function) => r.registerShellFunc name function) r

/-- The function of a command, if it has the name that was entered. -/
def ShellCmd.called (c : ShellCmd) (word : List UInt8) : Option ShellFunc :=
  match c.name, c.function with
  | some name, some function => if strcmp word name = 0 then some function else none
  | _, _ => none

/-- The loop of `kshell` over the commands: the functions that run, one after another. -/
def Registry.findCommand (r : Registry) (word : List UInt8) : List ShellFunc :=
  (List.range r.cmdCount).filterMap fun j => (r.commands j).called word

/-! ### The prompt and the shell -/

inductive Mode
  | prompt
  | shell
  /-- The thread has exited, or another program takes its place. -/
  | ended
  deriving DecidableEq

structure Console where
  registry : Registry
  mode : Mode
  starts : Nat
  ran : List (List ShellFunc)

inductive ConsoleOp
  /-- `!` at the prompt; `opened` says whether `kshell` can open its input device. -/
  | startShell (opened : Bool)
  /-- The path of a file at the prompt, and whether it can be opened. -/
  | execute (opened : Bool)
  /-- A line in the shell whose first word is `word`. -/
  | line (word : List UInt8)
  /-- The first `read` of a line fails. -/
  | readFails

def consoleStep (s : Console) : ConsoleOp → Option Console
  | .startShell opened =>
      if s.mode = .prompt then
        some { s with
          registry := initShell s.registry
          mode := if opened then .shell else .prompt
          starts := s.starts + 1 }
      else none
  | .execute opened =>
      if s.mode = .prompt then some { s with mode := if opened then .ended else .prompt }
      else none
  | .line word =>
      if s.mode = .shell ∧ word.length ≤ STR_LIMIT ∧ 0 ∉ word then
        some { s with
          ran := s.ran ++ [s.registry.findCommand word]
          mode := if strcmp word (bytes ['e', 'x', 'i', 't']) = 0 then .ended else .shell }
      else none
  | .readFails => if s.mode = .shell then some { s with mode := .prompt } else none

/-- What `cmd_count` and `commands` are before anything is registered. -/
def Registry.empty : Registry := ⟨0, fun _ => ⟨none, none⟩, []⟩

/-- The prompt after the kernel has started. -/
def Console.boot : Console := ⟨.empty, .prompt, 0, []⟩

end OsThing.Kshell
