/-!
# The HIR format

The schema document of a small stack machine's bytecode: a magic number and a title, a counter of
local variables, one chunk of code, and instructions for constants, variables, arithmetic and jumps.
It is the document that the command reads by default.
-/

namespace Bytecode

/-- The lines of the schema document of the HIR format. -/
def hirDocumentLines : List String := [
  "\x7b",
  "  \"header\": [",
  "    \x7b \"name\": \"magic number\", \"type\": \"u32\", \"value\": 332035328 \x7d,",
  "    \x7b \"name\": \"cart title\", \"type\": \"string\", \"value\": \"HIR V1\" \x7d",
  "  ],",
  "  \"counters\": [",
  "    \x7b \"name\": \"refs\", \"type\": \"u32\" \x7d",
  "  ],",
  "  \"chunks\": [",
  "    \x7b \"name\": \"code\", \"type\": \"u32\" \x7d",
  "  ],",
  "  \"commonArgs\": [],",
  "  \"instructions\": [",
  "    \x7b",
  "      \"name\": \"push const\",",
  "      \"desc\": \"push a numeric constant onto the stack\",",
  "      \"args\": [\x7b \"name\": \"value\", \"type\": \"number\" \x7d]",
  "    \x7d,",
  "    \x7b",
  "      \"name\": \"push bool\",",
  "      \"desc\": \"push a boolean constant onto the stack\",",
  "      \"args\": [\x7b \"name\": \"value\", \"type\": \"bool\" \x7d]",
  "    \x7d,",
  "    \x7b",
  "      \"name\": \"push string\",",
  "      \"desc\": \"push a string constant onto the stack\",",
  "      \"args\": [\x7b \"name\": \"value\", \"type\": \"string\" \x7d]",
  "    \x7d,",
  "    \x7b \"name\": \"push undefined\", \"desc\": \"push the undefined value onto the stack\", \"args\": [] \x7d,",
  "    \x7b \"name\": \"pop\", \"desc\": \"discard the top of the stack\", \"args\": [] \x7d,",
  "    \x7b",
  "      \"name\": \"get local\",",
  "      \"desc\": \"push the value of a local variable\",",
  "      \"args\": [\x7b \"name\": \"ref\", \"type\": \"u32\" \x7d]",
  "    \x7d,",
  "    \x7b",
  "      \"name\": \"set local\",",
  "      \"desc\": \"pop a value into a local variable\",",
  "      \"args\": [\x7b \"name\": \"ref\", \"type\": \"u32\" \x7d]",
  "    \x7d,",
  "    \x7b",
  "      \"name\": \"get global\",",
  "      \"desc\": \"push the value of a global variable\",",
  "      \"args\": [\x7b \"name\": \"name\", \"type\": \"string\" \x7d]",
  "    \x7d,",
  "    \x7b",
  "      \"name\": \"set global\",",
  "      \"desc\": \"pop a value into a global variable\",",
  "      \"args\": [\x7b \"name\": \"name\", \"type\": \"string\" \x7d]",
  "    \x7d,",
  "    \x7b \"name\": \"add\", \"desc\": \"add the top two values\", \"args\": [] \x7d,",
  "    \x7b \"name\": \"subtract\", \"desc\": \"subtract the top value from the one below it\", \"args\": [] \x7d,",
  "    \x7b \"name\": \"multiply\", \"desc\": \"multiply the top two values\", \"args\": [] \x7d,",
  "    \x7b \"name\": \"divide\", \"desc\": \"divide the second value by the top value\", \"args\": [] \x7d,",
  "    \x7b \"name\": \"negate\", \"desc\": \"negate the top value\", \"args\": [] \x7d,",
  "    \x7b \"name\": \"not\", \"desc\": \"logically invert the top value\", \"args\": [] \x7d,",
  "    \x7b \"name\": \"equal\", \"desc\": \"compare the top two values for equality\", \"args\": [] \x7d,",
  "    \x7b \"name\": \"less than\", \"desc\": \"compare the top two values for ordering\", \"args\": [] \x7d,",
  "    \x7b",
  "      \"name\": \"jump\",",
  "      \"desc\": \"move the program counter by a relative byte offset\",",
  "      \"args\": [\x7b \"name\": \"offset\", \"type\": \"i32\" \x7d]",
  "    \x7d,",
  "    \x7b",
  "      \"name\": \"jump false\",",
  "      \"desc\": \"pop a value and jump by a relative byte offset if it is falsy\",",
  "      \"args\": [\x7b \"name\": \"offset\", \"type\": \"i32\" \x7d]",
  "    \x7d,",
  "    \x7b",
  "      \"name\": \"call\",",
  "      \"desc\": \"call the function below the arguments on the stack\",",
  "      \"args\": [\x7b \"name\": \"argc\", \"type\": \"u8\" \x7d]",
  "    \x7d,",
  "    \x7b",
  "      \"name\": \"embed\",",
  "      \"desc\": \"push an opaque blob of host data\",",
  "      \"args\": [\x7b \"name\": \"data\", \"type\": \"bytes\" \x7d]",
  "    \x7d,",
  "    \x7b \"name\": \"return\", \"code\": 32, \"desc\": \"return the top value to the caller\", \"args\": [] \x7d",
  "  ]",
  "\x7d"]

/-- The schema document of the HIR format. -/
def hirDocument : String := String.join (hirDocumentLines.map (· ++ "\n"))

end Bytecode
