import BlockCompiler.Emission.Template.Basic
import BlockCompiler.Text.Literal

/-!
The templates of texts and lists.
-/

namespace BlockCompiler

namespace Template

def text : Template := fun site => do
  let raw := site.field "TEXT"
  expression (literal (← Emission.textOf (if raw.isVoid then .text "" else raw))) .atomic

def join : Template := fun site => do
  let count ← Emission.ofCount (itemCount site.head.mutation)
  if count = 0 then expression "''" .atomic
  else expression (joinTexts " + " (← site.values "ADD" count.toNat .additive "''")) .additive

def print : Template := fun site => do
  Emission.includeHeader "iostream"
  let message ← site.value "TEXT" .shift "''"
  statement s!"std::cout << {message} << std::endl;\n"

def createList : Template := fun site => do
  let count ← Emission.ofCount (itemCount site.head.mutation)
  let items ← site.values "ADD" count.toNat .none "0"
  expression ("\x7b" ++ joinTexts ", " items ++ "\x7d") .atomic

def getIndex : Template := fun site => do
  let place := site.field "WHERE"
  let items ← site.value "VALUE" .unaryPostfix "\x7b\x7d"
  if place.isText "FIRST" then expression (items ++ ".front()") .unaryPostfix
  else if place.isText "LAST" then expression (items ++ ".back()") .unaryPostfix
  else if place.isText "FROM_END" then
    let index ← site.adjusted "AT" 1 false .additive
    expression s!"{items}[{items}.size() - {index}]" .unaryPostfix
  else
    let index ← site.adjusted "AT" 0 false .none
    expression s!"{items}[{index}]" .unaryPostfix

end Template

end BlockCompiler
