import PegGen.Expectation.Basic
import PegGen.Trace.Event

/-!
# The fixed parts of a generated parser

The parts of a generated parser that do not depend on its grammar, line by line: the class of its
errors, the tracer that comes with it, the functions that its rule functions call, and how it ends
when the input does not match.  The tags of expectations and events are those of this library.
-/

namespace PegGen.Js.Template

/-- The class of syntax errors, which describes expectations in words. -/
def syntaxError : List String :=
  ["class peg$SyntaxError extends Error \x7b",
   "  constructor(message, expected, found, location) \x7b",
   "    super(message);",
   "    this.expected = expected;",
   "    this.found = found;",
   "    this.location = location;",
   "    this.name = \"SyntaxError\";",
   "  \x7d",
   "",
   "  static buildMessage(expected, found) \x7b",
   "    function escapeControl(ch) \x7b",
   "      switch (ch) \x7b",
   "        case \"\\0\":",
   "          return \"\\\\0\";",
   "        case \"\\t\":",
   "          return \"\\\\t\";",
   "        case \"\\n\":",
   "          return \"\\\\n\";",
   "        case \"\\r\":",
   "          return \"\\\\r\";",
   "      \x7d",
   "      const code = ch.charCodeAt(0);",
   "      if (code <= 0x1F || (code >= 0x7F && code <= 0x9F)) \x7b",
   "        return \"\\\\x\" + (code < 16 ? \"0\" : \"\") + code.toString(16).toUpperCase();",
   "      \x7d",
   "      return ch;",
   "    \x7d",
   "",
   "    function escapeWith(text, special) \x7b",
   "      let out = \"\";",
   "      for (const ch of text) \x7b",
   "        out += special.indexOf(ch) !== -1 ? \"\\\\\" + ch : escapeControl(ch);",
   "      \x7d",
   "      return out;",
   "    \x7d",
   "",
   "    function literalEscape(text) \x7b",
   "      return escapeWith(text, \"\\\\\\\"\");",
   "    \x7d",
   "",
   "    function classEscape(text) \x7b",
   "      return escapeWith(text, \"\\\\]^-\");",
   "    \x7d",
   "",
   "    function describeExpectation(expectation) \x7b",
   "      switch (expectation.type) \x7b",
   "        case \"" ++ Expectation.Kind.literal.tag ++ "\":",
   "          return \"\\\"\" + literalEscape(expectation.text) + \"\\\"\";",
   "        case \"" ++ Expectation.Kind.charClass.tag ++ "\":",
   "          return \"[\" + (expectation.inverted ? \"^\" : \"\") " ++
     "+ expectation.parts.map(function(part) \x7b",
   "            return Array.isArray(part) ? classEscape(part[0]) + " ++
     "\"-\" + classEscape(part[1]) : classEscape(part);",
   "          \x7d).join(\"\") + \"]\";",
   "        case \"" ++ Expectation.Kind.any.tag ++ "\":",
   "          return \"any character\";",
   "        case \"" ++ Expectation.Kind.endOfInput.tag ++ "\":",
   "          return \"end of input\";",
   "        default:",
   "          return expectation.description;",
   "      \x7d",
   "    \x7d",
   "",
   "    const descriptions = " ++
     "expected.map(describeExpectation).sort().filter(function(description, i, all) \x7b",
   "      return i === 0 || description !== all[i - 1];",
   "    \x7d);",
   "    let described;",
   "    if (descriptions.length === 0) \x7b",
   "      described = \"nothing\";",
   "    \x7d else if (descriptions.length <= 2) \x7b",
   "      described = descriptions.join(\" or \");",
   "    \x7d else \x7b",
   "      described = descriptions.slice(0, -1).join(\", \") + \", or " ++
     "\" + descriptions[descriptions.length - 1];",
   "    \x7d",
   "    return \"Expected \" + described + \" but \" + (found !== null ? \"\\\"\" + " ++
     "literalEscape(found) + \"\\\"\" : \"end of input\") + \" found.\";",
   "  \x7d",
   "\x7d"]

/-- The class of tracers that write a line per event. -/
def lineTracer : List String :=
  ["class peg$DefaultTracer \x7b",
   "  constructor(sink) \x7b",
   "    if (typeof sink !== \"function\") \x7b",
   "      throw new Error(\"peg$DefaultTracer needs a sink to write lines to.\");",
   "    \x7d",
   "    this.sink = sink;",
   "    this.indentLevel = 0;",
   "  \x7d",
   "",
   "  log(event) \x7b",
   "    const location = event.location.start.line + " ++
     "\":\" + event.location.start.column + \"-\"",
   "      + event.location.end.line + \":\" + event.location.end.column;",
   "    this.sink(location + \" \" + event.type.padEnd(10, \" \") + \" \" + " ++
     "\"  \".repeat(this.indentLevel) + event.rule);",
   "  \x7d",
   "",
   "  trace(event) \x7b",
   "    switch (event.type) \x7b",
   "      case \"" ++ EventKind.enter.tag ++ "\":",
   "        this.log(event);",
   "        this.indentLevel++;",
   "        break;",
   "      case \"" ++ EventKind.matched.tag ++ "\":",
   "      case \"" ++ EventKind.failed.tag ++ "\":",
   "        if (this.indentLevel === 0) \x7b",
   "          throw new Error(\"Unbalanced \" + " ++
     "event.type + \" for rule \" + event.rule + \".\");",
   "        \x7d",
   "        this.indentLevel--;",
   "        this.log(event);",
   "        break;",
   "      default:",
   "        throw new Error(\"Invalid event type: \" + event.type + \".\");",
   "    \x7d",
   "  \x7d",
   "\x7d"]

/-- Positions, the furthest failure, class tests and errors. -/
def helpers : List String :=
  ["function peg$computePosDetails(pos) \x7b",
   "  let details = peg$posDetailsCache[pos];",
   "  let p;",
   "  if (details) \x7b",
   "    return details;",
   "  \x7d",
   "  if (pos >= peg$posDetailsCache.length) \x7b",
   "    p = peg$posDetailsCache.length - 1;",
   "  \x7d else \x7b",
   "    p = pos;",
   "    while (!peg$posDetailsCache[--p]) \x7b\x7d",
   "  \x7d",
   "  details = peg$posDetailsCache[p];",
   "  details = \x7b line: details.line, column: details.column \x7d;",
   "  while (p < pos) \x7b",
   "    if (input.charCodeAt(p) === 10) \x7b",
   "      details.line++;",
   "      details.column = 1;",
   "    \x7d else \x7b",
   "      details.column++;",
   "    \x7d",
   "    p++;",
   "  \x7d",
   "  peg$posDetailsCache[pos] = details;",
   "  return details;",
   "\x7d",
   "",
   "function peg$computeLocation(startPos, endPos) \x7b",
   "  const startPosDetails = peg$computePosDetails(startPos);",
   "  const endPosDetails = peg$computePosDetails(endPos);",
   "  return \x7b",
   "    start: \x7b offset: startPos, line: " ++
     "startPosDetails.line, column: startPosDetails.column \x7d,",
   "    end: \x7b offset: endPos, line: endPosDetails.line, column: endPosDetails.column \x7d",
   "  \x7d;",
   "\x7d",
   "",
   "function peg$fail(expected) \x7b",
   "  if (peg$currPos < peg$maxFailPos) \x7b",
   "    return;",
   "  \x7d",
   "  if (peg$currPos > peg$maxFailPos) \x7b",
   "    peg$maxFailPos = peg$currPos;",
   "    peg$maxFailExpected = [];",
   "  \x7d",
   "  if (peg$maxFailExpected.indexOf(expected) === -1) \x7b",
   "    peg$maxFailExpected.push(expected);",
   "  \x7d",
   "\x7d",
   "",
   "function peg$matchesClass(ch, expectation) \x7b",
   "  if (ch === \"\") \x7b",
   "    return false;",
   "  \x7d",
   "  const candidates = expectation.ignoreCase ? [ch, " ++
     "ch.toLowerCase(), ch.toUpperCase()] : [ch];",
   "  const inClass = expectation.parts.some(function(part) \x7b",
   "    return candidates.some(function(c) \x7b",
   "      return Array.isArray(part) ? part[0] <= c && c <= part[1] : part === c;",
   "    \x7d);",
   "  \x7d);",
   "  return inClass !== expectation.inverted;",
   "\x7d",
   "",
   "function peg$buildStructuredError(expected, found, location) \x7b",
   "  return new " ++
     "peg$SyntaxError(peg$SyntaxError.buildMessage(expected, found), expected, found, location);",
   "\x7d"]

/-- The error at the furthest failure is thrown. -/
def throwFurthest : List String :=
  ["throw peg$buildStructuredError(",
   "  peg$maxFailExpected,",
   "  peg$maxFailPos < input.length ? input.charAt(peg$maxFailPos) : null,",
   "  peg$maxFailPos < input.length",
   "    ? peg$computeLocation(peg$maxFailPos, peg$maxFailPos + 1)",
   "    : peg$computeLocation(peg$maxFailPos, peg$maxFailPos)",
   ");"]

end PegGen.Js.Template
