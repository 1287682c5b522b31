/-!
# Replacement templates

In an AWK replacement an ampersand stands for the matched text, `\&` for an
ampersand and `\\` for a backslash. In a Python template `\g<0>` stands for the
matched text and `\\` for a backslash.
-/
namespace AwkToPython.Literal

def templateChars : List Char → List Char
  | [] => []
  | '\\' :: '&' :: rest => '&' :: templateChars rest
  | '\\' :: '\\' :: rest => '\\' :: '\\' :: templateChars rest
  | '\\' :: rest => '\\' :: '\\' :: templateChars rest
  | '&' :: rest => '\\' :: 'g' :: '<' :: '0' :: '>' :: templateChars rest
  | c :: rest => c :: templateChars rest

def template (value : String) : String := String.ofList (templateChars value.toList)

end AwkToPython.Literal
