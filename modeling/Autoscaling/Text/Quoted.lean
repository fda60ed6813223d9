import Autoscaling.Text.Visible

namespace Autoscaling.Text

def escape (c : Char) : List Char :=
  if c = '"' then ['\\', '"']
  else if c = '\\' then ['\\', '\\']
  else if c = '\n' then ['\\', 'n']
  else if c = '\r' then ['\\', 'r']
  else if c = '\t' then ['\\', 't']
  else if c = '\x00' then ['\\', '0']
  else if isVisible c then [c]
  else '\\' :: 'u' :: '\x7b' :: Nat.toDigits 16 c.toNat ++ ['\x7d']

def quote (s : List Char) : List Char := '"' :: s.flatMap escape ++ ['"']

def quoted (s : String) : String := String.ofList (quote s.toList)

example : quoted "a\"b\\c\n" = "\"a\\\"b\\\\c\\n\"" := by decide +kernel
example : quoted "it's \u200b" = "\"it's \\u\x7b200b\x7d\"" := by decide +kernel

end Autoscaling.Text
